/-
This file is the library of ring buffers between a writer and a reader. Entries get
consecutive positions, the cell of a position is its remainder by the size, and each side
counts positions with a counter that wraps around. If the size divides the range of the
counters, the reader gets the entries in the order in which they are written.
-/

import Mathlib

namespace Gem5.Library.Ring

open List Function

variable {Entry : Type} {size width : Nat} [NeZero size]

/-- What a reader finds: nothing if it has caught up with the writer. -/
def next (ring : Fin size → Entry) (index counter : BitVec width) : Option Entry :=
  if counter = index then none else some (ring (Fin.ofNat size counter.toNat))

/-- The entries that are not read yet are in their cells; the other cells may have anything. -/
structure Carries (ring : Fin size → Entry) (index counter : BitVec width)
    (written read : List Entry) : Prop where
  order : read <+: written
  space : written.length ≤ read.length + size
  writer : index = BitVec.ofNat width written.length
  reader : counter = BitVec.ofNat width read.length
  cells : ∀ position entry, read.length ≤ position → written[position]? = some entry →
    ring (Fin.ofNat size position) = entry

theorem cell_ne {early late : Nat} (before : early < late) (near : late < early + size) :
    Fin.ofNat size early ≠ Fin.ofNat size late := by
  intro same
  have equal : early % size = late % size := Fin.mk.inj same
  have dvd := (Nat.modEq_iff_dvd' before.le).mp equal
  exact absurd (Nat.le_of_dvd (by omega) dvd) (by omega)

theorem cell_counter (divides : size ∣ 2 ^ width) (position : Nat) :
    Fin.ofNat size (BitVec.ofNat width position).toNat = Fin.ofNat size position := by
  refine Fin.ext ?_
  exact (congrArg (· % size) (BitVec.toNat_ofNat ..)).trans (Nat.mod_mod_of_dvd position divides)

/-- Two counters that are less than their range apart are equal only at equal positions. -/
theorem counter_eq_iff {early late : Nat} (order : early ≤ late) (near : late < early + 2 ^ width) :
    BitVec.ofNat width early = BitVec.ofNat width late ↔ early = late := by
  refine ⟨fun same => ?_, congrArg _⟩
  have equal : early % 2 ^ width = late % 2 ^ width := by
    simpa only [BitVec.toNat_ofNat] using congrArg BitVec.toNat same
  have none := Nat.eq_zero_of_dvd_of_lt ((Nat.modEq_iff_dvd' order).mp equal) (by omega)
  omega

namespace Carries

variable {ring : Fin size → Entry} {index counter : BitVec width} {written read : List Entry}
  (carries : Carries ring index counter written read)
include carries

theorem next_eq (divides : size ∣ 2 ^ width) (smaller : size < 2 ^ width) :
    next ring index counter = written[read.length]? := by
  have same := counter_eq_iff carries.order.length_le
    (lt_of_le_of_lt carries.space (Nat.add_lt_add_left smaller _))
  rw [next, carries.reader, carries.writer, cell_counter divides]
  by_cases all : read.length = written.length
  · rw [if_pos (same.mpr all), all, getElem?_eq_none le_rfl]
  · have bound := lt_of_le_of_ne carries.order.length_le all
    rw [if_neg (mt same.mp all), getElem?_eq_getElem bound,
      carries.cells _ _ le_rfl (getElem?_eq_getElem bound)]

theorem advance {found : Option Entry} (isNext : found = written[read.length]?) :
    Carries ring index (counter + if found.isSome then 1 else 0) written
      (read ++ found.toList) := by
  obtain ⟨⟨rest, rfl⟩, space, writer, reader, cells⟩ := carries
  rw [getElem?_append_right le_rfl, Nat.sub_self] at isNext
  cases rest with
  | nil =>
    subst isNext
    exact ⟨prefix_rfl, space.trans (by simp), writer, by simpa using reader, by simpa using cells⟩
  | cons entry rest =>
    subst isNext
    refine ⟨⟨rest, by simp⟩, space.trans (by simp), writer, ?_, fun position other after => ?_⟩
    · rw [reader, length_append, BitVec.ofNat_add]
      rfl
    · exact cells position other (le_trans (prefix_append ..).length_le after)

theorem push (divides : size ∣ 2 ^ width) (room : written.length < read.length + size)
    (entry : Entry) :
    Carries (update ring (Fin.ofNat size index.toNat) entry) (index + 1) counter
      (written ++ [entry]) read := by
  have length : (written ++ [entry]).length = written.length + 1 := length_append ..
  refine ⟨carries.order.trans (prefix_append ..), length.trans_le room, ?_, carries.reader,
    fun position other after found => ?_⟩
  · rw [carries.writer, length, BitVec.ofNat_add]
    rfl
  · rw [carries.writer, cell_counter divides]
    rcases lt_trichotomy position written.length with before | rfl | beyond
    · rw [update_of_ne (cell_ne before (by omega))]
      exact carries.cells position other after (by rwa [getElem?_append_left before] at found)
    · rw [getElem?_concat_length] at found
      rw [update_self, Option.some.inj found]
    · rw [getElem?_eq_none (length.trans_le beyond)] at found
      cases found

end Carries

end Gem5.Library.Ring
