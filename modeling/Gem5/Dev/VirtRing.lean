/-
This file models the rings between a driver and a virtual device queue: the driver posts
descriptors in the available ring, and the device puts those that it has completed in the used
ring. The device writes the whole used ring from a copy that is not part of a checkpoint.

Both rings are read in the order in which they are written, in every run in which no completion
is waiting at a checkpoint. Completions that are waiting are blank after the next one.
-/

import Gem5.Dev.VirtDescriptor
import Gem5.Library.Ring
import Gem5.Library.Run

namespace Gem5.Dev

open Library List Function

inductive RingFault where
  | assertion
  | outOfBounds
  | loopPanic
  /-- The rounds for the chain are used up. -/
  | unfinished
deriving DecidableEq

/-- The header and the entries of a ring. -/
structure RingData (size : Nat) (Entry : Type) where
  flags : BitVec 16
  index : BitVec 16
  ring : Fin size → Entry

/-- A ring of the device: a copy of the one that the guest has at an address. -/
structure VirtRing (size : Nat) (Entry : Type) extends RingData size Entry where
  base : BitVec 64

namespace VirtRing

variable {size : Nat} {Entry : Type} (ring : VirtRing size Entry) (guest : RingData size Entry)

/-- A ring of zeros, as it is before the guest sets an address. -/
def blank (zero : Entry) : VirtRing size Entry := ⟨⟨0, 0, fun _ => zero⟩, 0⟩

def readHeader : Except RingFault (VirtRing size Entry) :=
  if ring.base = 0 then .error .assertion
  else .ok { ring with flags := guest.flags, index := guest.index }

def read : Except RingFault (VirtRing size Entry) := do
  let ring ← ring.readHeader guest
  return { ring with ring := guest.ring }

/-- What the guest has after the ring is written. -/
def write : Except RingFault (RingData size Entry) :=
  if ring.base = 0 then .error .assertion else .ok ring.toRingData

end VirtRing

structure VringUsedElem where
  id : BitVec 32
  len : BitVec 32
deriving DecidableEq

/-- A queue with its rings and with those in the memory of the guest. -/
structure RingQueue (size : Nat) extends VirtQueue size where
  avail : VirtRing size (BitVec 16)
  used : VirtRing size VringUsedElem
  lastAvail : BitVec 16
  availGuest : RingData size (BitVec 16)
  usedGuest : RingData size VringUsedElem

variable {size : Nat} [NeZero size]

namespace RingQueue

section

variable (queue : RingQueue size)

/-- The alignment mask has the width of `unsigned`. -/
def setAddress (address : BitVec 64) : RingQueue size :=
  let addrAvail := address + BitVec.ofNat 64 (size * 16)
  let addrAvailEnd := addrAvail + 4#64 + BitVec.ofNat 64 (size * 2)
  { queue with
    address := address.toNat
    avail.base := addrAvail
    used.base := (addrAvailEnd + 2#64 + 4095#64) &&& (~~~4095#32).setWidth 64 }

def consumeDescriptor (fuel : Nat) : Except RingFault (Option (Fin size) × RingQueue size) := do
  let avail ← queue.avail.read queue.availGuest
  let queue := { queue with avail }
  if queue.lastAvail = avail.index then return (none, queue)
  let index := avail.ring (Fin.ofNat size queue.lastAvail.toNat)
  let queue := { queue with lastAvail := queue.lastAvail + 1 }
  if bound : index.toNat < size then
    match queue.updateChain ⟨index.toNat, bound⟩ fuel with
    | some (.updated chain) =>
      return (some ⟨index.toNat, bound⟩, { queue with toVirtQueue := chain })
    | some .loopPanic => throw .loopPanic
    | none => throw .unfinished
  else throw .outOfBounds

def produceDescriptor (desc : Fin size) (len : BitVec 32) : Except RingFault (RingQueue size) := do
  let used ← queue.used.readHeader queue.usedGuest
  let used := { used with
    ring := update used.ring (Fin.ofNat size used.index.toNat) ⟨BitVec.ofNat 32 desc, len⟩
    index := used.index + 1 }
  return { queue with used, usedGuest := ← used.write }

/-- A new queue is made, and gets the address and the counter of the checkpoint. -/
def unserialize : RingQueue size :=
  { queue with
    descriptors := fun _ => ⟨0, 0, 0, Fin.ofNat size 0⟩
    avail := .blank 0
    used := .blank ⟨0, 0⟩ : RingQueue size }.setAddress (BitVec.ofNat 64 queue.address)

end

variable {queue next : RingQueue size}

theorem consumeDescriptor_inversion {fuel : Nat} {result : Option (Fin size)}
    (taken : queue.consumeDescriptor fuel = .ok (result, next)) :
    next.used = queue.used ∧ next.availGuest = queue.availGuest ∧
      next.usedGuest = queue.usedGuest ∧
      next.lastAvail = queue.lastAvail + (if result.isSome then 1 else 0) ∧
      (result.map fun index => BitVec.ofNat 16 index.val) =
        Ring.next queue.availGuest.ring queue.availGuest.index queue.lastAvail := by
  obtain ⟨avail, read, taken⟩ := bind_eq_ok taken
  obtain ⟨_, header, rfl⟩ := map_eq_ok read
  obtain ⟨-, header⟩ := else_eq_ok header
  cases header
  rw [Ring.next]
  dsimp only at taken
  split at taken
  · rename_i same
    cases taken
    exact ⟨rfl, rfl, rfl, (BitVec.add_zero _).symm, (if_pos same).symm⟩
  · rename_i apart
    split at taken
    · split at taken
      · cases taken
        rw [if_neg apart]
        exact ⟨rfl, rfl, rfl, rfl, by simp⟩
      · cases taken
      · cases taken
    · cases taken

theorem produceDescriptor_inversion {desc : Fin size} {len : BitVec 32}
    (taken : queue.produceDescriptor desc len = .ok next) :
    next.lastAvail = queue.lastAvail ∧ next.availGuest = queue.availGuest ∧
      next.used.ring = update queue.used.ring (Fin.ofNat size queue.usedGuest.index.toNat)
        ⟨BitVec.ofNat 32 desc, len⟩ ∧
      next.usedGuest = ⟨queue.usedGuest.flags, queue.usedGuest.index + 1, next.used.ring⟩ := by
  obtain ⟨used, header, taken⟩ := bind_eq_ok taken
  obtain ⟨-, header⟩ := else_eq_ok header
  cases header
  obtain ⟨_, written, rfl⟩ := map_eq_ok taken
  obtain ⟨-, written⟩ := else_eq_ok written
  cases written
  exact ⟨rfl, rfl, rfl, rfl⟩

end RingQueue

/-! ### The driver and the device -/

/-- A queue with the descriptors that the driver posted and the device consumed, and the
completions that the device produced and the driver collected. -/
structure RingTrace (size : Nat) where
  queue : RingQueue size
  lastUsed : BitVec 16
  posted : List (BitVec 16)
  consumed : List (BitVec 16)
  produced : List VringUsedElem
  collected : List VringUsedElem

inductive RingCall (size : Nat) where
  /-- The driver writes a descriptor of its table. -/
  | describe (index : Fin size) (desc : VringDesc size)
  | post (index : BitVec 16)
  | consume (fuel : Nat)
  | produce (desc : Fin size) (len : BitVec 32)
  | collect
  | restore

namespace RingTrace

section

variable (trace : RingTrace size)

/-- The completion that the driver finds. -/
def completion : Option VringUsedElem :=
  Ring.next trace.queue.usedGuest.ring trace.queue.usedGuest.index trace.lastUsed

def step : RingCall size → Except RingFault (RingTrace size)
  | .describe index desc =>
    .ok { trace with queue.guest := update trace.queue.guest index desc }
  | .post index =>
    let guest := trace.queue.availGuest
    .ok { trace with
      posted := trace.posted ++ [index]
      queue.availGuest := { guest with
        index := guest.index + 1
        ring := update guest.ring (Fin.ofNat size guest.index.toNat) index } }
  | .consume fuel => do
    let (result, queue) ← trace.queue.consumeDescriptor fuel
    let found := result.map fun index => BitVec.ofNat 16 index.val
    return { trace with queue, consumed := trace.consumed ++ found.toList }
  | .produce desc len => do
    let queue ← trace.queue.produceDescriptor desc len
    return { trace with queue, produced := trace.produced ++ [⟨BitVec.ofNat 32 desc, len⟩] }
  | .collect => .ok { trace with
    lastUsed := trace.lastUsed + if trace.completion.isSome then 1 else 0
    collected := trace.collected ++ trace.completion.toList }
  | .restore => .ok { trace with queue := trace.queue.unserialize }

/-- The driver has a descriptor to post, the device has one to complete, and no completion is
waiting at a checkpoint. -/
def Possible : RingCall size → Prop
  | .post _ => trace.posted.length < trace.collected.length + size
  | .produce .. => trace.produced.length < trace.consumed.length
  | .restore => trace.produced.length ≤ trace.collected.length
  | .describe .. | .consume _ | .collect => True

instance : (call : RingCall size) → Decidable (trace.Possible call)
  | .post _ | .produce .. => Nat.decLt _ _
  | .restore => Nat.decLe _ _
  | .describe .. | .consume _ | .collect => .isTrue trivial

def start (address : BitVec 64) : RingTrace size :=
  ⟨RingQueue.setAddress ⟨⟨0, fun _ => ⟨0, 0, 0, Fin.ofNat size 0⟩,
    fun _ => ⟨0, 0, 0, Fin.ofNat size 0⟩⟩, .blank 0, .blank ⟨0, 0⟩, 0,
    (VirtRing.blank 0).toRingData, (VirtRing.blank ⟨0, 0⟩).toRingData⟩ address, 0, [], [], [], []⟩

end

/-- The rings carry what is between the two sides, the device's copy of the used one too. -/
structure Sound (trace : RingTrace size) : Prop where
  avail : Ring.Carries trace.queue.availGuest.ring trace.queue.availGuest.index
    trace.queue.lastAvail trace.posted trace.consumed
  used : Ring.Carries trace.queue.usedGuest.ring trace.queue.usedGuest.index trace.lastUsed
    trace.produced trace.collected
  copy : Ring.Carries trace.queue.used.ring trace.queue.usedGuest.index trace.lastUsed
    trace.produced trace.collected
  waiting : trace.produced.length ≤ trace.consumed.length
  space : trace.posted.length ≤ trace.collected.length + size

section

variable {trace next : RingTrace size} (divides : size ∣ 2 ^ 16) (smaller : size < 2 ^ 16)
include divides smaller

theorem Sound.step (sound : trace.Sound) {call : RingCall size} (possible : trace.Possible call)
    (taken : trace.step call = .ok next) : next.Sound := by
  cases call with
  | describe =>
    cases taken
    exact { sound with }
  | post index =>
    cases taken
    have behind := sound.used.order.length_le.trans sound.waiting
    exact { sound with
      avail := sound.avail.push divides
        (lt_of_lt_of_le possible (Nat.add_le_add_right behind size)) index
      space := (length_append ..).trans_le possible }
  | consume =>
    obtain ⟨⟨result, queue⟩, consumed, rfl⟩ := map_eq_ok taken
    obtain ⟨used, availGuest, usedGuest, counter, found⟩ :=
      RingQueue.consumeDescriptor_inversion consumed
    have avail := sound.avail.advance (found.trans (sound.avail.next_eq divides smaller))
    rw [Option.isSome_map, ← counter, ← availGuest] at avail
    exact { sound with
      avail
      used := usedGuest ▸ sound.used
      copy := usedGuest ▸ used ▸ sound.copy
      waiting := sound.waiting.trans (prefix_append ..).length_le }
  | produce desc len =>
    obtain ⟨queue, produced, rfl⟩ := map_eq_ok taken
    obtain ⟨lastAvail, availGuest, used, usedGuest⟩ :=
      RingQueue.produceDescriptor_inversion produced
    have copy := sound.copy.push divides (lt_of_lt_of_le possible
      (sound.avail.order.length_le.trans sound.space)) ⟨BitVec.ofNat 32 desc, len⟩
    rw [← used] at copy
    exact { sound with
      avail := lastAvail ▸ availGuest ▸ sound.avail
      used := usedGuest ▸ copy
      copy := usedGuest ▸ copy
      waiting := (length_append ..).trans_le possible }
  | collect =>
    cases taken
    have found : trace.completion = _ := sound.used.next_eq divides smaller
    exact { sound with
      used := sound.used.advance found
      copy := sound.copy.advance found
      space := sound.space.trans (Nat.add_le_add_right (prefix_append ..).length_le size) }
  | restore =>
    cases taken
    refine { sound with copy := { sound.copy with cells := fun _ _ after found => ?_ } }
    rw [getElem?_eq_none (le_trans possible after)] at found
    cases found

variable {address : BitVec 64} {calls : List (RingCall size)} {final : RingTrace size}
  (run : Run RingTrace.step Possible (start address) calls final)
include run

theorem Sound.of_run : final.Sound :=
  run.invariant Sound (fun sound possible taken => sound.step divides smaller possible taken)
    ⟨⟨prefix_rfl, Nat.zero_le _, rfl, rfl, nofun⟩, ⟨prefix_rfl, Nat.zero_le _, rfl, rfl, nofun⟩,
      ⟨prefix_rfl, Nat.zero_le _, rfl, rfl, nofun⟩, le_rfl, Nat.zero_le _⟩

/-- The first completion after a checkpoint blanks those that are not collected. -/
theorem restore_blanks_completions (waiting : final.produced.length < final.consumed.length)
    {desc : Fin size} {len : BitVec 32} {queue : RingQueue size}
    (taken : final.queue.unserialize.produceDescriptor desc len = .ok queue) {position : Nat}
    (uncollected : final.collected.length ≤ position) (inside : position < final.produced.length) :
    queue.usedGuest.ring (Fin.ofNat size position) = ⟨0, 0⟩ := by
  have sound := Sound.of_run divides smaller run
  obtain ⟨-, -, used, usedGuest⟩ := RingQueue.produceDescriptor_inversion taken
  have index : final.queue.unserialize.usedGuest.index = _ := sound.used.writer
  have near := lt_of_lt_of_le waiting (sound.avail.order.length_le.trans sound.space)
  rw [usedGuest, used, index, Ring.cell_counter divides]
  exact update_of_ne (Ring.cell_ne inside (by omega)) ..

end

/-- A descriptor goes around before a checkpoint, and two others are on their way after it. -/
def around : List (RingCall 16) :=
  [.describe 1 ⟨4096, 8, 0, 0⟩, .post 1, .consume 1, .produce 1 8, .collect, .restore, .post 0,
    .consume 1, .post 1, .consume 1, .produce 0 4]

/-- A checkpoint comes before the driver collects the second completion. -/
theorem restore_blanks_completions_around : ∃ final : RingTrace 16,
    Run step Possible (start 4096) around final ∧
      (final.queue.unserialize.produceDescriptor 1 8).isOk = true ∧
      ∀ queue, final.queue.unserialize.produceDescriptor 1 8 = .ok queue →
        queue.usedGuest.ring 1 = ⟨0, 0⟩ :=
  Run.exists_checked (fun final =>
      (final.queue.unserialize.produceDescriptor 1 8).isOk = true ∧
      final.produced.length < final.consumed.length ∧ final.collected.length ≤ 1 ∧
      1 < final.produced.length) (by decide +kernel)
    fun _ run ⟨done, waiting, uncollected, inside⟩ => ⟨done, fun _ taken =>
      restore_blanks_completions (by decide) (by decide) run waiting taken uncollected inside⟩

end RingTrace

/-! ### The place of the used ring -/

namespace RingQueue

/-- Where the driver has the used ring: on the next page after the available ring. -/
def usedAddress (size address : Nat) : Nat := (address + size * 18 + 4101) / 4096 * 4096

theorem and_alignMask (address : Nat) :
    address &&& ((2 ^ 20 - 1) * 2 ^ 12) = address % 2 ^ 32 / 2 ^ 12 * 2 ^ 12 := by
  refine Nat.eq_of_testBit_eq fun bit => ?_
  rw [Nat.testBit_and, Nat.testBit_mul_two_pow, Nat.testBit_mul_two_pow, Nat.testBit_div_two_pow,
    Nat.testBit_mod_two_pow, Nat.testBit_two_pow_sub_one]
  by_cases low : 12 ≤ bit
  · have same : bit - 12 < 20 ↔ bit < 32 := by omega
    rw [Nat.sub_add_cancel low, decide_eq_true low, Bool.true_and, Bool.true_and,
      decide_eq_decide.mpr same, Bool.and_comm]
  · rw [decide_eq_false low, Bool.false_and, Bool.false_and, Bool.and_false]

omit [NeZero size] in
/-- The device finds the used ring exactly if it is in the first four gibibytes. -/
theorem setAddress_used_iff (queue : RingQueue size) (address : BitVec 64)
    (fits : address.toNat + size * 18 + 4101 < 2 ^ 64) :
    (queue.setAddress address).used.base.toNat = usedAddress size address.toNat ↔
      usedAddress size address.toNat < 2 ^ 32 := by
  have mask : ((~~~4095#32).setWidth 64).toNat = (2 ^ 20 - 1) * 2 ^ 12 := by decide
  rw [setAddress, usedAddress]
  dsimp only
  rw [BitVec.toNat_and, mask, and_alignMask]
  simp only [BitVec.toNat_add, BitVec.toNat_ofNat]
  omega

theorem setAddress_used_high :
    ((RingTrace.start 0 : RingTrace 2).queue.setAddress 4294967296#64).used.base.toNat ≠
      usedAddress 2 (4294967296#64).toNat :=
  mt (setAddress_used_iff _ _ (by decide)).mp (by decide)

end RingQueue

end Gem5.Dev
