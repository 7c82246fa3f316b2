/-
This file models the copy of a range of bytes out of a packet queue. The queue holds the packets
one after the other, and the range is given by its offset in the concatenated contents and its
length.

The copy refuses a range that ends where the contents end. It skips packets by the length of
the first one, and it copies the first packet from its start whatever the offset is. The file
proves that a request is answered as intended for all contents of the packets exactly when it
is empty or starts at 0, and ends before the contents end, or when it is too large without an
overflow of the sum of offset and length.
-/

import Gem5.Library.Run
import Mathlib

namespace Gem5.Dev

open Library List

inductive FifoFault where
  | pastEnd
  | invalidFifo
  | noProgress
deriving DecidableEq, Repr

structure PacketFifoEntry where
  packet : List UInt8
  number : Nat
  slack : Nat
deriving DecidableEq, Repr

structure PacketFifo where
  fifo : List PacketFifoEntry
  size : Nat
deriving DecidableEq, Repr

/-- The loop that skips packets. The iterator moves on, while the length is that of the packet
it pointed to before the loop. -/
def skipPackets (length : Nat) :
    Nat → List PacketFifoEntry → Except FifoFault (Nat × List PacketFifoEntry)
  | offset, [] => if length ≤ offset then .error .pastEnd else .ok (offset, [])
  | offset, entry :: rest =>
    if length ≤ offset then skipPackets length (offset - length) rest
    else .ok (offset, entry :: rest)

/-- The loop that copies, with at most as many rounds as the first argument. The packets are
those from the iterator on. -/
def copyLoop : Nat → List PacketFifoEntry → Nat → Nat → List UInt8 → Except FifoFault (List UInt8)
  | _, _, _, 0, data => .ok data
  | 0, _, _, _ + 1, _ => .error .noProgress
  | _ + 1, [], _, _ + 1, _ => .error .pastEnd
  | fuel + 1, entry :: rest, offset, len + 1, data => do
    let skipped ← skipPackets entry.packet.length offset (entry :: rest)
    match skipped with
    | (_, []) => .error .invalidFifo
    | (offset, _ :: rest) =>
      let size := min (entry.packet.length - offset) (len + 1)
      copyLoop fuel rest 0 (len + 1 - size) (data ++ entry.packet.take size)

/-- The result of the copy and the bytes that it has written. Offsets and lengths have 32 bits,
and every round of the loop copies at least one byte. -/
def PacketFifo.copyout (fifo : PacketFifo) (offset len : Nat) :
    Except FifoFault (Bool × List UInt8) :=
  if fifo.size ≤ (offset + len) % 2 ^ 32 then .ok (false, [])
  else do
    let data ← copyLoop len fifo.fifo offset len []
    return (true, data)

/-! ### The contents of a queue -/

/-- The bytes of the packets, one packet after the other. -/
def contents (entries : List PacketFifoEntry) : List UInt8 :=
  (entries.map PacketFifoEntry.packet).flatten

/-- Packets that are not empty, without slack. -/
structure PacketFifo.WellFormed (fifo : PacketFifo) : Prop where
  nonempty : ∀ entry ∈ fifo.fifo, entry.packet ≠ []
  noSlack : ∀ entry ∈ fifo.fifo, entry.slack = 0
  size : fifo.size = (contents fifo.fifo).length
  fits : fifo.size < 2 ^ 32

def PacketFifo.lengths (fifo : PacketFifo) : List Nat :=
  fifo.fifo.map fun entry => entry.packet.length

theorem length_contents (entries : List PacketFifoEntry) :
    (contents entries).length = (entries.map fun entry => entry.packet.length).sum := by
  rw [contents, length_flatten, map_map]
  rfl

/-- A request is answered with its bytes if the queue has them, and refused otherwise. -/
def PacketFifo.Answered (fifo : PacketFifo) (offset len : Nat)
    (result : Except FifoFault (Bool × List UInt8)) : Prop :=
  if offset + len ≤ fifo.size then
    result = .ok (true, ((contents fifo.fifo).drop offset).take len)
  else result = .ok (false, [])

/-! ### The loops -/

variable {entries : List PacketFifoEntry} {lengths : List Nat}

theorem copyLoop_zero {fuel len : Nat} {data : List UInt8}
    (nonempty : ∀ entry ∈ entries, entry.packet ≠ []) (enough : len ≤ (contents entries).length)
    (rounds : len ≤ fuel) :
    copyLoop fuel entries 0 len data = .ok (data ++ (contents entries).take len) := by
  induction fuel generalizing entries len data with
  | zero =>
    obtain rfl : len = 0 := Nat.le_zero.mp rounds
    rw [copyLoop, take_zero, append_nil]
  | succ _ hypothesis =>
    cases len with
    | zero => rw [copyLoop, take_zero, append_nil]
    | succ len =>
      cases entries with
      | nil => exact absurd enough (Nat.not_succ_le_zero len)
      | cons entry rest =>
        obtain ⟨notEmpty, restNonempty⟩ := forall_mem_cons.mp nonempty
        have positive : 0 < entry.packet.length := length_pos_iff.mpr notEmpty
        have split : contents (entry :: rest) = entry.packet ++ contents rest := rfl
        rw [split, length_append] at enough
        rw [copyLoop, skipPackets, if_neg (Nat.not_le.mpr positive), ok_bind]
        dsimp only
        rw [Nat.sub_zero, hypothesis restNonempty (by omega) (by omega), split,
          take_append, append_assoc]
        have taken : entry.packet.take (min entry.packet.length (len + 1)) =
            entry.packet.take (len + 1) := by
          rw [take_eq_take_iff]
          omega
        have remaining : len + 1 - min entry.packet.length (len + 1) =
            len + 1 - entry.packet.length := by omega
        rw [taken, remaining]

theorem copyLoop_extends {fuel offset len : Nat}
    {data copied : List UInt8} (returned : copyLoop fuel entries offset len data = .ok copied) :
    ∃ more, copied = data ++ more := by
  induction fuel generalizing entries offset len data with
  | zero =>
    cases len with
    | zero =>
      rw [copyLoop] at returned
      cases returned
      exact ⟨[], (append_nil _).symm⟩
    | succ => cases returned
  | succ _ hypothesis =>
    cases len with
    | zero =>
      rw [copyLoop] at returned
      cases returned
      exact ⟨[], (append_nil _).symm⟩
    | succ =>
      cases entries with
      | nil => cases returned
      | cons =>
        rw [copyLoop] at returned
        obtain ⟨_, _, continued⟩ := bind_eq_ok returned
        split at continued
        · cases continued
        · obtain ⟨_, isCopied⟩ := hypothesis continued
          exact ⟨_, isCopied.trans (append_assoc _ _ _)⟩

theorem skipPackets_lt {length offset newOffset : Nat} {rest : List PacketFifoEntry}
    (returned : skipPackets length offset entries = .ok (newOffset, rest)) :
    newOffset < length := by
  induction entries generalizing offset with
  | nil =>
    rw [skipPackets] at returned
    obtain ⟨inside, returned⟩ := else_eq_ok returned
    cases returned
    exact Nat.lt_of_not_le inside
  | cons _ _ hypothesis =>
    rw [skipPackets] at returned
    split at returned
    · exact hypothesis returned
    · rename_i inside
      cases returned
      exact Nat.lt_of_not_le inside

theorem copyLoop_head {fuel offset len : Nat} {entry : PacketFifoEntry}
    {rest : List PacketFifoEntry} {copied : List UInt8} (some : 0 < len)
    (returned : copyLoop fuel (entry :: rest) offset len [] = .ok copied) :
    copied.head? = entry.packet.head? := by
  cases fuel with
  | zero =>
    cases len with
    | zero => exact absurd some (Nat.lt_irrefl 0)
    | succ => cases returned
  | succ =>
    cases len with
    | zero => exact absurd some (Nat.lt_irrefl 0)
    | succ =>
      rw [copyLoop] at returned
      obtain ⟨_, isSkipped, continued⟩ := bind_eq_ok returned
      split at continued
      · cases continued
      · have inside := skipPackets_lt isSkipped
        obtain ⟨_, rfl⟩ := copyLoop_extends continued
        obtain ⟨_, isSize⟩ := Nat.exists_eq_succ_of_ne_zero (Nat.ne_of_gt
          (Nat.lt_min.mpr ⟨Nat.sub_pos_of_lt inside, some⟩))
        rw [isSize, nil_append]
        cases isPacket : entry.packet with
        | nil =>
          rw [isPacket] at inside
          exact absurd inside (Nat.not_lt_zero _)
        | cons => rfl

/-! ### Requests -/

/-- Packets of given lengths, all bytes of which are 0 but the one at a place of the
contents. -/
def markedEntries (mark : Nat) : Nat → List Nat → List PacketFifoEntry
  | _, [] => []
  | base, length :: rest =>
    { packet := (range' base length).map fun place => if place = mark then 1 else 0
      number := 0
      slack := 0 } :: markedEntries mark (base + length) rest

theorem contents_markedEntries (mark base : Nat) (lengths : List Nat) :
    contents (markedEntries mark base lengths) =
      (range' base lengths.sum).map fun place => if place = mark then 1 else 0 := by
  induction lengths generalizing base with
  | nil => rfl
  | cons length rest hypothesis =>
    have split : contents (markedEntries mark base (length :: rest)) =
        ((range' base length).map fun place => if place = mark then 1 else 0) ++
          contents (markedEntries mark (base + length) rest) := rfl
    rw [split, hypothesis, ← map_append, range'_append_1, sum_cons]

theorem lengths_markedEntries (mark base : Nat) (lengths : List Nat) :
    ((markedEntries mark base lengths).map fun entry => entry.packet.length) = lengths := by
  induction lengths generalizing base with
  | nil => rfl
  | cons _ _ hypothesis =>
    rw [markedEntries, map_cons, hypothesis, length_map, length_range']

theorem noSlack_markedEntries {mark base : Nat} :
    ∀ entry ∈ markedEntries mark base lengths, entry.slack = 0 := by
  induction lengths generalizing base with
  | nil => exact nofun
  | cons _ _ hypothesis =>
    exact forall_mem_cons.mpr ⟨rfl, hypothesis⟩

theorem head?_markedEntries {mark length : Nat} (positive : 0 < length) (notFirst : mark ≠ 0) :
    ∃ entry rest, markedEntries mark 0 (length :: lengths) = entry :: rest ∧
      entry.packet.head? = some 0 := by
  obtain ⟨_, rfl⟩ := Nat.exists_eq_succ_of_ne_zero (Nat.ne_of_gt positive)
  refine ⟨_, _, rfl, ?_⟩
  rw [range'_succ, map_cons, head?_cons, if_neg (Ne.symm notFirst)]

def markedFifo (mark : Nat) (lengths : List Nat) : PacketFifo where
  fifo := markedEntries mark 0 lengths
  size := lengths.sum

theorem markedFifo_wellFormed {mark : Nat} (positive : ∀ length ∈ lengths, 0 < length)
    (fits : lengths.sum < 2 ^ 32) : (markedFifo mark lengths).WellFormed := by
  have isLengths := lengths_markedEntries mark 0 lengths
  refine ⟨fun entry isEntry isEmpty => ?_, ?_, ?_, fits⟩
  · have isLength : entry.packet.length ∈ lengths :=
      isLengths ▸ mem_map_of_mem isEntry
    rw [isEmpty] at isLength
    exact absurd (positive _ isLength) (Nat.lt_irrefl 0)
  · exact noSlack_markedEntries
  · rw [length_contents]
    exact congrArg sum isLengths.symm

theorem copyLoop_marked_ne {offset len : Nat} (positive : ∀ length ∈ lengths, 0 < length)
    (before : offset + len < lengths.sum) (notFirst : offset ≠ 0) (notEmpty : 0 < len) :
    copyLoop len (markedFifo offset lengths).fifo offset len [] ≠
      .ok (((contents (markedFifo offset lengths).fifo).drop offset).take len) := by
  intro returned
  have expected : (((contents (markedFifo offset lengths).fifo).drop offset).take len).head? =
      some 1 := by
    rw [head?_take, if_neg (Nat.ne_of_gt notEmpty), head?_drop, markedFifo,
      contents_markedEntries, getElem?_map, getElem?_range' (by omega)]
    simp only [Option.map_some, zero_add, one_mul, if_true]
  cases lengths with
  | nil => exact absurd before (Nat.not_lt_zero _)
  | cons =>
    obtain ⟨_, _, isEntries, isHead⟩ :=
      head?_markedEntries (forall_mem_cons.mp positive).1 notFirst
    have given := copyLoop_head notEmpty
      ((congrArg (copyLoop len · offset len []) isEntries).symm.trans returned)
    rw [expected, isHead] at given
    cases given

/-- A request is answered as intended for all packets of given lengths exactly when it ends
before the contents end and is empty or starts at 0, or when it is too large and the sum of
its offset and its length does not fall below the size by an overflow. -/
theorem copyout_answered_iff {lengths : List Nat} (offset len : Nat)
    (positive : ∀ length ∈ lengths, 0 < length) (fits : lengths.sum < 2 ^ 32) :
    (∀ fifo : PacketFifo, fifo.WellFormed → fifo.lengths = lengths →
      fifo.Answered offset len (fifo.copyout offset len)) ↔
    if offset + len ≤ lengths.sum then
      offset + len < lengths.sum ∧ (offset = 0 ∨ len = 0)
    else lengths.sum ≤ (offset + len) % 2 ^ 32 := by
  constructor
  · intro answered
    have marked := answered (markedFifo offset lengths) (markedFifo_wellFormed positive fits)
      (lengths_markedEntries offset 0 lengths)
    rw [PacketFifo.Answered, PacketFifo.copyout] at marked
    split at marked
    · rename_i enough
      have inRange : offset + len ≤ lengths.sum := enough
      rw [if_pos inRange]
      split at marked
      · cases marked
      · rename_i accepted
        have isSum : (offset + len) % 2 ^ 32 = offset + len :=
          Nat.mod_eq_of_lt (Nat.lt_of_le_of_lt inRange fits)
        rw [isSum] at accepted
        refine ⟨Nat.lt_of_not_le accepted, ?_⟩
        by_contra shifted
        obtain ⟨notFirst, notEmpty⟩ := not_or.mp shifted
        obtain ⟨_, isCopied, returned⟩ := bind_eq_ok marked
        cases returned
        exact absurd isCopied (copyLoop_marked_ne positive (Nat.lt_of_not_le accepted) notFirst
          (Nat.pos_of_ne_zero notEmpty))
    · rename_i tooLarge
      have outOfRange : ¬ offset + len ≤ lengths.sum := tooLarge
      rw [if_neg outOfRange]
      split at marked
      · rename_i refused
        exact refused
      · obtain ⟨_, _, returned⟩ := bind_eq_ok marked
        cases returned
  · intro condition fifo wellFormed isLengths
    have isSize : fifo.size = lengths.sum := by
      rw [wellFormed.size, length_contents]
      exact congrArg sum isLengths
    rw [PacketFifo.Answered, PacketFifo.copyout, isSize]
    split
    · rename_i inRange
      rw [if_pos inRange] at condition
      obtain ⟨before, shape⟩ := condition
      rw [Nat.mod_eq_of_lt (Nat.lt_of_le_of_lt inRange fits), if_neg (Nat.not_le.mpr before)]
      obtain rfl | rfl := shape
      · have enough : len ≤ (contents fifo.fifo).length := by
          rw [← wellFormed.size, isSize]
          omega
        rw [copyLoop_zero wellFormed.nonempty enough (Nat.le_refl len), drop_zero]
        rfl
      · rw [copyLoop, take_zero]
        rfl
    · rename_i outOfRange
      rw [if_neg outOfRange] at condition
      rw [if_pos condition]

/-- Two packets of three and two bytes: a request of four bytes from the start is answered. -/
theorem copyout_answered_iff_two_packets :
    (∀ length ∈ [3, 2], 0 < length) ∧ [3, 2].sum < 2 ^ 32 ∧
      ∀ fifo : PacketFifo, fifo.WellFormed → fifo.lengths = [3, 2] →
        fifo.Answered 0 4 (fifo.copyout 0 4) :=
  ⟨by decide, by decide, (copyout_answered_iff 0 4 (by decide) (by decide)).mpr (by decide)⟩

/-- Two packets of three and two bytes. The last two bytes are refused, and the second byte is
given as the first one. -/
theorem copyout_not_answered :
    PacketFifo.copyout ⟨[⟨[1, 2, 3], 0, 0⟩, ⟨[4, 5], 1, 0⟩], 5⟩ 3 2 = .ok (false, []) ∧
      PacketFifo.copyout ⟨[⟨[1, 2, 3], 0, 0⟩, ⟨[4, 5], 1, 0⟩], 5⟩ 1 1 = .ok (true, [1]) :=
  ⟨rfl, rfl⟩

end Gem5.Dev
