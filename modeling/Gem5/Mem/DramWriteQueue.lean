/-
This file models how the DRAM controller (`mem/dram_ctrl.cc`) cuts a packet into bursts and
keeps its write queue, where a burst is merged with the first entry that it overlaps or
touches if both fit in a burst. It proves that the queue covers every byte that was written
since an entry with it was taken out, and that the entries lie inside aligned blocks exactly
as long as no burst is merged with an entry of another block: the length of the merged entry
is checked, its place is not. Addresses have 64 bits and sizes 32, and the packets end below
the topmost block, where the end of a burst wraps to zero.
-/

import Gem5.Library.Run
import Mathlib.Data.Nat.Bitwise
import Mathlib.Order.MinMax

namespace Gem5.Mem.Dram

open Library List

/-! ### Bursts -/

/-- The controller's parameters; the burst size is a power of two of 32 bits. -/
structure Config where
  burstBits : Nat
  readBufferSize : Nat
  writeBufferSize : Nat
  burstFits : burstBits < 32

namespace Config

variable (config : Config)

def burstSize : Nat := 2 ^ config.burstBits

/-- Where the burst after the one with an address begins. -/
def nextBurst (addr : Nat) : Nat := ((addr ||| (config.burstSize - 1)) + 1) % 2 ^ 64

/-- The number of bursts of a packet. -/
def pktCount (addr size : Nat) : Nat :=
  ((addr &&& (config.burstSize - 1)) + size + config.burstSize - 1) % 2 ^ 32 / config.burstSize

def block (addr : Nat) : Nat := addr / config.burstSize

def blockEnd (addr : Nat) : Nat := (config.block addr + 1) * config.burstSize

/-- A packet has bytes and ends below the topmost block, and its bursts can be counted. -/
def Fits (addr size : Nat) : Prop :=
  0 < size ∧ addr + size + config.burstSize ≤ 2 ^ 64 ∧ size + 2 * config.burstSize ≤ 2 ^ 32
deriving Decidable

theorem burstSize_pos : 0 < config.burstSize := Nat.two_pow_pos _

theorem burstSize_lt : config.burstSize < 2 ^ 32 :=
  Nat.pow_lt_pow_right (by decide) config.burstFits

theorem lt_blockEnd (addr : Nat) : addr < config.blockEnd addr :=
  Nat.lt_mul_of_div_lt (Nat.lt_succ_self _) config.burstSize_pos

theorem blockEnd_le (addr : Nat) : config.blockEnd addr ≤ addr + config.burstSize := by
  rw [blockEnd, add_mul, one_mul]
  exact Nat.add_le_add_right (Nat.div_mul_le_self _ _) _

variable {addr size : Nat}

theorem nextBurst_eq (low : addr + config.burstSize < 2 ^ 64) :
    config.nextBurst addr = config.blockEnd addr := by
  have top : 2 ^ config.burstBits - 1 < 2 ^ config.burstBits :=
    Nat.sub_one_lt_of_lt config.burstSize_pos
  have filled : addr ||| (2 ^ config.burstBits - 1) =
      2 ^ config.burstBits * (addr / 2 ^ config.burstBits) + (2 ^ config.burstBits - 1) := by
    refine Nat.eq_of_testBit_eq fun index => ?_
    rw [Nat.testBit_or, Nat.testBit_two_pow_mul_add _ top, Nat.testBit_two_pow_sub_one,
      Nat.testBit_div_two_pow]
    split
    · simp [*]
    · rw [Nat.sub_add_cancel (not_lt.mp ‹_›)]
      simp [*]
  have whole : (addr ||| (config.burstSize - 1)) + 1 = config.blockEnd addr := by
    rw [burstSize, filled, blockEnd, block, burstSize, add_mul, mul_comm]
    omega
  rw [nextBurst, whole, Nat.mod_eq_of_lt (lt_of_le_of_lt (config.blockEnd_le addr) low)]

theorem block_mono {first second : Nat} (ordered : first ≤ second) :
    config.block first ≤ config.block second := Nat.div_le_div_right ordered

theorem block_blockEnd (addr : Nat) : config.block (config.blockEnd addr) = config.block addr + 1 :=
  Nat.mul_div_cancel _ config.burstSize_pos

theorem block_of_lt {place : Nat} (before : place < config.blockEnd addr) :
    config.block place ≤ config.block addr :=
  Nat.lt_succ_iff.mp (Nat.div_lt_of_lt_mul (Nat.mul_comm _ _ ▸ before))

/-- The number of bursts that are left of a packet that ends at `stop`. -/
def Remaining (stop count addr : Nat) : Prop :=
  stop ≤ addr ∧ count = 0 ∨ addr < stop ∧ config.block (stop - 1) + 1 = config.block addr + count

theorem remaining_pktCount (fits : config.Fits addr size) :
    config.Remaining (addr + size) (config.pktCount addr size) addr := by
  have burst := config.burstSize_pos
  obtain ⟨positive, _, counted⟩ := fits
  have whole : addr + size - 1 =
      (addr % config.burstSize + size - 1) + config.burstSize * (addr / config.burstSize) := by
    have := Nat.mod_add_div addr config.burstSize
    omega
  have count : config.pktCount addr size =
      (addr % config.burstSize + size - 1) / config.burstSize + 1 := by
    have offset := Nat.mod_lt addr burst
    rw [pktCount, burstSize, Nat.and_two_pow_sub_one_eq_mod, ← burstSize,
      ← Nat.add_div_right _ burst, Nat.mod_eq_of_lt (by omega)]
    congr 1
    omega
  refine .inr ⟨by omega, ?_⟩
  rw [block, whole, Nat.add_mul_div_left _ _ burst, count, block]
  omega

theorem pktCount_pos (fits : config.Fits addr size) : 0 < config.pktCount addr size := by
  have positive := fits.1
  have later := config.block_mono (show addr ≤ addr + size - 1 by omega)
  obtain ⟨_, _⟩ | ⟨_, _⟩ := config.remaining_pktCount fits <;> omega

theorem Remaining.next {stop count : Nat} (remaining : config.Remaining stop (count + 1) addr) :
    addr < stop ∧ config.Remaining stop count (config.blockEnd addr) := by
  rcases remaining with ⟨_, none⟩ | ⟨inside, _⟩
  · cases none
  · refine ⟨inside, ?_⟩
    by_cases last : stop ≤ config.blockEnd addr
    · have := config.block_of_lt (show stop - 1 < config.blockEnd addr by omega)
      have := config.block_mono (show addr ≤ stop - 1 by omega)
      exact .inl ⟨last, by omega⟩
    · exact .inr ⟨by omega, by rw [block_blockEnd]; omega⟩

end Config

/-! ### The write queue -/

/-- Where a range ends, and how long it is between two addresses, in 64 bits. -/
def rangeEnd (addr size : Nat) : Nat := (addr + size) % 2 ^ 64

def span (first last : Nat) : Nat := (last + 2 ^ 64 - first) % 2 ^ 64

/-- An entry of the write queue. -/
structure DRAMPacket where
  addr : Nat
  size : Nat
  deriving DecidableEq

namespace DRAMPacket

def Covers (entry : DRAMPacket) (place : Nat) : Prop :=
  entry.addr ≤ place ∧ place < entry.addr + entry.size
deriving Decidable

/-- The entry has bytes and ends below the topmost block. -/
def Bounded (config : Config) (entry : DRAMPacket) : Prop :=
  0 < entry.size ∧ entry.addr + entry.size + config.burstSize ≤ 2 ^ 64

/-- The entry ends in the aligned block that it begins in. -/
def InBlock (config : Config) (entry : DRAMPacket) : Prop :=
  config.block (entry.addr + entry.size - 1) = config.block entry.addr
deriving Decidable

end DRAMPacket

inductive Fault where
  | assertion
  deriving DecidableEq

section Queue

variable (config : Config)

/-- An entry takes in a burst, in one of four ways. -/
def merge (burst entry : DRAMPacket) : Option DRAMPacket :=
  let burstEnd := rangeEnd burst.addr burst.size
  let entryEnd := rangeEnd entry.addr entry.size
  if burst.addr ≤ entry.addr then
    if entryEnd ≤ burstEnd then some burst
    else if entry.addr ≤ burstEnd ∧ span burst.addr entryEnd ≤ config.burstSize then
      some ⟨burst.addr, span burst.addr entryEnd⟩
    else none
  else if burstEnd ≤ entryEnd then some entry
  else if burst.addr ≤ entryEnd ∧ span entry.addr burstEnd ≤ config.burstSize then
    some ⟨entry.addr, span entry.addr burstEnd⟩
  else none

/-- The first entry that can takes in the burst. -/
def mergeInto (burst : DRAMPacket) : List DRAMPacket → Option (List DRAMPacket)
  | [] => none
  | entry :: rest =>
    match merge config burst entry with
    | some merged => some (merged :: rest)
    | none => (mergeInto burst rest).map (entry :: ·)

/-- The entry that a burst is merged with. -/
def partner (burst : DRAMPacket) (queue : List DRAMPacket) : Option DRAMPacket :=
  queue.find? fun entry => (merge config burst entry).isSome

def addBurst (burst : DRAMPacket) (queue : List DRAMPacket) : Except Fault (List DRAMPacket) :=
  match mergeInto config burst queue with
  | some merged => .ok merged
  | none => if queue.length < config.writeBufferSize then .ok (queue ++ [burst])
    else .error .assertion

/-- The burst that begins at an address, of a packet that ends at `stop`. -/
def burstAt (stop addr : Nat) : DRAMPacket :=
  ⟨addr, span addr (min (config.nextBurst addr) stop) % 2 ^ 32⟩

/-- The loop over the bursts of a packet that ends at `stop`. -/
def addBursts (stop : Nat) : Nat → Nat → List DRAMPacket → Except Fault (List DRAMPacket)
  | 0, _, queue => .ok queue
  | count + 1, addr, queue => do
    let next ← addBurst config (burstAt config stop addr) queue
    addBursts stop count (config.nextBurst addr) next

/-- Some burst of the loop is merged with an entry that begins in another block. -/
def joins (stop : Nat) : Nat → Nat → List DRAMPacket → Bool
  | 0, _, _ => false
  | count + 1, addr, queue =>
    (partner config (burstAt config stop addr) queue).any
        (fun entry => config.block entry.addr ≠ config.block addr) ||
      (addBurst config (burstAt config stop addr) queue).toOption.any
        (joins stop count (config.nextBurst addr))

/-- A write packet is refused if the queue has no room for all its bursts. -/
def recvWrite (addr size : Nat) (queue : List DRAMPacket) :
    Except Fault (Option (List DRAMPacket)) :=
  if size = 0 then .error .assertion
  else if queue.length + config.pktCount addr size > config.writeBufferSize then .ok none
  else do
    let next ← addBursts config (rangeEnd addr size) (config.pktCount addr size) addr queue
    return some next

end Queue

variable {config : Config} {burst entry merged : DRAMPacket} {queue next : List DRAMPacket}

theorem span_eq {first last : Nat} (ordered : first ≤ last) (bounded : last < 2 ^ 64) :
    span first last = last - first := by
  rw [span, Nat.add_comm, Nat.add_sub_assoc ordered, Nat.add_mod_left,
    Nat.mod_eq_of_lt (lt_of_le_of_lt (Nat.sub_le _ _) bounded)]

theorem DRAMPacket.Bounded.rangeEnd_eq (bounded : entry.Bounded config) :
    rangeEnd entry.addr entry.size = entry.addr + entry.size ∧
      entry.addr + entry.size < 2 ^ 64 := by
  have below : entry.addr + entry.size < 2 ^ 64 :=
    lt_of_lt_of_le (Nat.lt_add_of_pos_right config.burstSize_pos) bounded.2
  exact ⟨Nat.mod_eq_of_lt below, below⟩

theorem rangeEnd_of_fits {addr size : Nat} (fits : config.Fits addr size) :
    rangeEnd addr size = addr + size :=
  (show DRAMPacket.Bounded config ⟨addr, size⟩ from ⟨fits.1, fits.2.1⟩).rangeEnd_eq.1

section Merge

variable (small : burst.Bounded config) (bounded : entry.Bounded config)
  (taken : merge config burst entry = some merged)
include small bounded taken

theorem merge_bounds :
    merged.addr = min burst.addr entry.addr ∧
      merged.addr + merged.size = max (burst.addr + burst.size) (entry.addr + entry.size) := by
  obtain ⟨burstEnd, burstBelow⟩ := small.rangeEnd_eq
  obtain ⟨entryEnd, entryBelow⟩ := bounded.rangeEnd_eq
  rw [merge, burstEnd, entryEnd] at taken
  split_ifs at taken with _ _ fits _ fits
  · cases taken
    omega
  · rw [span_eq (by omega) entryBelow] at taken
    cases taken
    dsimp only
    omega
  · cases taken
    omega
  · rw [span_eq (by omega) burstBelow] at taken
    cases taken
    dsimp only
    omega

theorem merge_inBlock (inBlock : burst.InBlock config) : merged.InBlock config ↔
    entry.InBlock config ∧ config.block entry.addr = config.block burst.addr := by
  obtain ⟨low, _⟩ := merge_bounds small bounded taken
  have positive := small.1
  have size := bounded.1
  have last : merged.addr + merged.size - 1 =
      max (burst.addr + burst.size - 1) (entry.addr + entry.size - 1) := by omega
  have mono : Monotone config.block := fun _ _ => config.block_mono
  have later : config.block entry.addr ≤ config.block (entry.addr + entry.size - 1) :=
    config.block_mono (by omega)
  rw [DRAMPacket.InBlock] at inBlock ⊢
  rw [DRAMPacket.InBlock, last, low, mono.map_max, mono.map_min, inBlock]
  omega

end Merge

theorem mergeInto_eq_some (taken : mergeInto config burst queue = some next) :
    ∃ before entry merged after, queue = before ++ entry :: after ∧
      next = before ++ merged :: after ∧ merge config burst entry = some merged ∧
      partner config burst queue = some entry := by
  induction queue generalizing next with
  | nil => cases taken
  | cons first rest hypothesis =>
    rw [mergeInto] at taken
    split at taken
    · rename_i merged merges
      cases taken
      exact ⟨[], first, merged, rest, rfl, rfl, merges,
        find?_cons_of_pos (Option.isSome_iff_exists.mpr ⟨_, merges⟩)⟩
    · rename_i apart
      obtain ⟨_, found, rfl⟩ := Option.map_eq_some_iff.mp taken
      obtain ⟨before, entry, merged, after, rfl, rfl, merges, first⟩ := hypothesis found
      refine ⟨_ :: before, entry, merged, after, rfl, rfl, merges, ?_⟩
      rw [partner, find?_cons_of_neg (by simp [apart])]
      exact first

theorem mergeInto_eq_none (apart : mergeInto config burst queue = none) :
    partner config burst queue = none := by
  induction queue with
  | nil => rfl
  | cons _ _ hypothesis =>
    rw [mergeInto] at apart
    split at apart
    · cases apart
    · rename_i notMerged
      rw [partner, find?_cons_of_neg (by simp [notMerged])]
      exact hypothesis (Option.map_eq_none_iff.mp apart)

theorem addBurst_spec (small : burst.Bounded config) (inBlock : burst.InBlock config)
    (bounded : ∀ entry ∈ queue, entry.Bounded config)
    (taken : addBurst config burst queue = .ok next) :
    (∀ entry ∈ next, entry.Bounded config) ∧
    (∀ place, burst.Covers place ∨ (∃ entry ∈ queue, entry.Covers place) →
      ∃ entry ∈ next, entry.Covers place) ∧
    ((∀ entry ∈ next, entry.InBlock config) ↔ (∀ entry ∈ queue, entry.InBlock config) ∧
      (partner config burst queue).any
        (fun entry => config.block entry.addr ≠ config.block burst.addr) = false) := by
  rw [addBurst] at taken
  split at taken
  · rename_i found
    cases taken
    obtain ⟨before, entry, _, after, rfl, rfl, merges, first⟩ := mergeInto_eq_some found
    rw [first]
    have entryBounded := bounded entry (mem_append_right _ mem_cons_self)
    obtain _ := merge_bounds small entryBounded merges
    refine ⟨?_, fun place covered => ?_, ?_⟩
    · grind [DRAMPacket.Bounded]
    · simp only [mem_append, mem_cons, DRAMPacket.Covers] at covered ⊢
      grind
    · have same := merge_inBlock small entryBounded merges inBlock
      simp only [mem_append, mem_cons, or_imp, forall_and, forall_eq, same,
        Option.any_some, decide_eq_false_iff_not, ne_eq, not_not]
      tauto
  · rename_i apart
    rw [mergeInto_eq_none apart]
    obtain ⟨-, taken⟩ := then_eq_ok taken
    cases taken
    refine ⟨?_, fun place covered => ?_, ?_⟩
    · simp [or_imp, forall_and, small]
      exact bounded
    · grind
    · simp [or_imp, forall_and, inBlock]

theorem burstAt_spec {stop addr : Nat} (high : stop + config.burstSize ≤ 2 ^ 64)
    (inside : addr < stop) :
    (burstAt config stop addr).Bounded config ∧ (burstAt config stop addr).InBlock config ∧
      ∀ place, (burstAt config stop addr).Covers place ↔
        addr ≤ place ∧ place < stop ∧ place < config.blockEnd addr := by
  have later := config.lt_blockEnd addr
  have near := config.blockEnd_le addr
  have small := config.burstSize_lt
  have isBurst : burstAt config stop addr =
      ⟨addr, min (config.blockEnd addr) stop - addr⟩ := by
    rw [burstAt, config.nextBurst_eq (by omega), span_eq (by omega) (by omega),
      Nat.mod_eq_of_lt (by omega)]
  rw [isBurst]
  refine ⟨⟨?_, ?_⟩, le_antisymm ?_ ?_, fun place => ?_⟩
  · dsimp only
    omega
  · dsimp only
    omega
  · refine config.block_of_lt ?_
    dsimp only
    omega
  · exact config.block_mono (by dsimp only; omega)
  · dsimp only [DRAMPacket.Covers]
    omega

theorem addBursts_spec {stop count addr : Nat} (high : stop + config.burstSize ≤ 2 ^ 64)
    (remaining : config.Remaining stop count addr)
    (bounded : ∀ entry ∈ queue, entry.Bounded config)
    (taken : addBursts config stop count addr queue = .ok next) :
    (∀ entry ∈ next, entry.Bounded config) ∧
    (∀ place, addr ≤ place ∧ place < stop ∨ (∃ entry ∈ queue, entry.Covers place) →
      ∃ entry ∈ next, entry.Covers place) ∧
    ((∀ entry ∈ next, entry.InBlock config) ↔ (∀ entry ∈ queue, entry.InBlock config) ∧
      joins config stop count addr queue = false) := by
  induction count generalizing addr queue with
  | zero =>
    cases taken
    obtain _ | _ := remaining
    · refine ⟨bounded, fun place covered => ?_, by simp [joins]⟩
      exact covered.resolve_left (by omega)
    · have := config.block_mono (show addr ≤ stop - 1 by omega)
      omega
  | succ _ hypothesis =>
    obtain ⟨inside, rest⟩ := remaining.next
    obtain ⟨small, inBlock, covers⟩ := burstAt_spec high inside
    obtain ⟨_, first, continued⟩ := bind_eq_ok taken
    obtain ⟨boundedMiddle, coversMiddle, blocksMiddle⟩ := addBurst_spec small inBlock bounded first
    have isEnd : config.nextBurst addr = config.blockEnd addr := config.nextBurst_eq (by omega)
    rw [isEnd] at continued
    obtain ⟨boundedNext, coversNext, blocksNext⟩ := hypothesis rest boundedMiddle continued
    refine ⟨boundedNext, fun place covered => coversNext place ?_, ?_⟩
    · by_cases here : place < config.blockEnd addr
      · exact .inr (coversMiddle place (covered.imp_left fun inPacket =>
          (covers place).mpr ⟨inPacket.1, inPacket.2, here⟩))
      · exact covered.imp (fun inPacket => ⟨not_lt.mp here, inPacket.2⟩)
          fun old => coversMiddle place (.inr old)
    · rw [blocksNext, blocksMiddle, joins, first, isEnd, Bool.or_eq_false_iff, and_assoc]
      rfl

theorem addBurst_ok (burst : DRAMPacket) (room : queue.length < config.writeBufferSize) :
    ∃ next, addBurst config burst queue = .ok next ∧ next.length ≤ queue.length + 1 := by
  rw [addBurst]
  split
  · rename_i found
    obtain ⟨_, _, _, _, rfl, rfl, _⟩ := mergeInto_eq_some found
    exact ⟨_, rfl, by simp⟩
  · rw [if_pos room]
    exact ⟨_, rfl, by simp⟩

theorem addBursts_ok {count : Nat} (stop addr : Nat)
    (room : queue.length + count ≤ config.writeBufferSize) :
    ∃ next, addBursts config stop count addr queue = .ok next := by
  induction count generalizing addr queue with
  | zero => exact ⟨queue, rfl⟩
  | succ _ hypothesis =>
    obtain ⟨_, first, _⟩ := addBurst_ok (burstAt config stop addr)
      (show queue.length < config.writeBufferSize by omega)
    rw [addBursts, first, ok_bind]
    exact hypothesis _ (by omega)

/-! ### Runs -/

/-- The write queue, the bytes that were written since an entry with them was taken out, and
whether a burst has been merged with an entry of another block. -/
structure WriteTrace where
  queue : List DRAMPacket
  pending : Nat → Bool
  joined : Bool

inductive WriteCall where
  | write (addr size : Nat)
  | remove (index : Nat)

namespace WriteTrace

def start : WriteTrace := ⟨[], fun _ => false, false⟩

def step (config : Config) (trace : WriteTrace) : WriteCall → Except Fault WriteTrace
  | .write addr size => do
    match ← recvWrite config addr size trace.queue with
    | none => return trace
    | some queue => return ⟨queue,
        fun place => trace.pending place || decide (addr ≤ place ∧ place < addr + size),
        trace.joined || joins config (rangeEnd addr size) (config.pktCount addr size) addr
          trace.queue⟩
  | .remove index =>
    match trace.queue[index]? with
    | none => .error .assertion
    | some entry => .ok ⟨trace.queue.eraseIdx index,
        fun place => trace.pending place && !decide (entry.Covers place), trace.joined⟩

/-- Packets fit, and an entry that is taken out is there. -/
def Allowed (config : Config) (trace : WriteTrace) : WriteCall → Prop
  | .write addr size => config.Fits addr size
  | .remove index => index < trace.queue.length

instance (config : Config) (trace : WriteTrace) (call : WriteCall) :
    Decidable (trace.Allowed config call) :=
  match call with
  | .write .. => inferInstanceAs (Decidable (config.Fits _ _))
  | .remove _ => inferInstanceAs (Decidable (_ < _))

variable {trace : WriteTrace} {calls : List WriteCall}

structure Sound (config : Config) (trace : WriteTrace) : Prop where
  bounded : ∀ entry ∈ trace.queue, entry.Bounded config
  covered : ∀ place, trace.pending place = true → ∃ entry ∈ trace.queue, entry.Covers place
  inBlocks : trace.joined = false → ∀ entry ∈ trace.queue, entry.InBlock config

theorem recvWrite_spec {addr size : Nat} (fits : config.Fits addr size)
    (bounded : ∀ entry ∈ queue, entry.Bounded config)
    (accepted : recvWrite config addr size queue = .ok (some next)) :
    (∀ entry ∈ next, entry.Bounded config) ∧
    (∀ place, addr ≤ place ∧ place < addr + size ∨ (∃ entry ∈ queue, entry.Covers place) →
      ∃ entry ∈ next, entry.Covers place) ∧
    ((∀ entry ∈ next, entry.InBlock config) ↔ (∀ entry ∈ queue, entry.InBlock config) ∧
      joins config (rangeEnd addr size) (config.pktCount addr size) addr queue = false) := by
  rw [recvWrite, if_neg (ne_of_gt fits.1), rangeEnd_of_fits fits] at accepted
  rw [rangeEnd_of_fits fits]
  split at accepted
  · cases accepted
  · obtain ⟨_, taken, returned⟩ := bind_eq_ok accepted
    cases returned
    exact addBursts_spec fits.2.1 (config.remaining_pktCount fits) bounded taken

theorem Sound.step {call : WriteCall} {after : WriteTrace} (sound : trace.Sound config)
    (allowed : trace.Allowed config call) (taken : trace.step config call = .ok after) :
    after.Sound config := by
  cases call with
  | write =>
    obtain ⟨answer, received, returned⟩ := bind_eq_ok taken
    cases answer with
    | none =>
      cases returned
      exact sound
    | some =>
      cases returned
      obtain ⟨bounded, covers, blocks⟩ := recvWrite_spec allowed sound.bounded received
      refine ⟨bounded, fun place written => covers place ?_, fun apart => blocks.mpr ?_⟩
      · rcases Bool.or_eq_true_iff.mp written with old | new
        · exact .inr (sound.covered place old)
        · exact .inl (of_decide_eq_true new)
      · obtain ⟨before, here⟩ := Bool.or_eq_false_iff.mp apart
        exact ⟨sound.inBlocks before, here⟩
  | remove index =>
    rw [WriteTrace.step] at taken
    split at taken
    · cases taken
    · rename_i entry found
      cases taken
      have rest : ∀ other ∈ trace.queue.eraseIdx index, other ∈ trace.queue := fun _ member =>
        mem_of_mem_eraseIdx member
      refine ⟨fun other member => sound.bounded other (rest other member), fun place written => ?_,
        fun apart other member => sound.inBlocks apart other (rest other member)⟩
      obtain ⟨old, notTaken⟩ := Bool.and_eq_true_iff.mp written
      obtain ⟨other, member, covers⟩ := sound.covered place old
      obtain ⟨position, present⟩ := mem_iff_getElem?.mp member
      refine ⟨other, mem_eraseIdx_iff_getElem?.mpr ⟨position, fun same => ?_, present⟩, covers⟩
      subst same
      cases found.symm.trans present
      simp [covers] at notTaken

/-- In every run the queue covers the bytes that were written since an entry with them was taken
out. The entries stay inside blocks through a packet exactly if no burst of it is merged with
an entry of another block, and lie inside blocks as long as none has been. -/
theorem in_blocks_iff (run : Run (step config) (Allowed config) start calls trace) :
    (∀ place, trace.pending place = true → ∃ entry ∈ trace.queue, entry.Covers place) ∧
    (∀ addr size, config.Fits addr size → ∃ answer,
      recvWrite config addr size trace.queue = .ok answer ∧
      ∀ queue ∈ answer, ((∀ entry ∈ queue, entry.InBlock config) ↔
        (∀ entry ∈ trace.queue, entry.InBlock config) ∧
          joins config (rangeEnd addr size) (config.pktCount addr size) addr trace.queue =
            false)) ∧
    (trace.joined = false → ∀ entry ∈ trace.queue, entry.InBlock config) := by
  have sound : trace.Sound config := run.invariant (Sound config)
    Sound.step ⟨nofun, nofun, nofun⟩
  refine ⟨sound.covered, fun addr size fits => ?_, sound.inBlocks⟩
  have answered : ∃ answer, recvWrite config addr size trace.queue = .ok answer := by
    rw [recvWrite, if_neg (ne_of_gt fits.1)]
    split
    · exact ⟨none, rfl⟩
    · obtain ⟨next, taken⟩ := addBursts_ok (rangeEnd addr size) addr (not_lt.mp ‹_›)
      exact ⟨some next, by rw [taken]; rfl⟩
  obtain ⟨answer, received⟩ := answered
  refine ⟨answer, received, fun queue accepted => ?_⟩
  cases accepted
  exact (recvWrite_spec fits sound.bounded received).2.2

/-- Bursts of 64 bytes. -/
def bursts64 : Config := ⟨6, 32, 64, by decide⟩

theorem in_blocks_iff_two_writes : ∃ trace, Run (step bursts64) (Allowed bursts64) start
    [.write 0 8, .write 8 8, .write 64 8, .remove 0] trace ∧
    ∀ entry ∈ trace.queue, entry.InBlock bursts64 := by
  exact Run.exists_checked (fun trace => (!trace.joined) = true)
    (by decide +kernel) fun _ run apart => (in_blocks_iff run).2.2 (Bool.not_eq_true' _ ▸ apart)

/-- A write of 8 bytes across a boundary of blocks becomes one entry across it. -/
theorem entry_across_blocks : ∃ trace,
    Run (step bursts64) (Allowed bursts64) start [.write 60 8] trace ∧
    trace.queue = [⟨60, 8⟩] ∧ ¬ (DRAMPacket.mk 60 8).InBlock bursts64 := by
  exact Run.exists_checked (fun trace => trace.queue = [⟨60, 8⟩])
    (by decide +kernel) fun _ _ queue => ⟨queue, by decide⟩

end WriteTrace

end Gem5.Mem.Dram
