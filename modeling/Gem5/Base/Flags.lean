/-
This file models the flag words of `base/flags.hh`: a machine word whose bits
are tested, set and cleared through masks. The lemmas say how one mask sees the
writes made through another: through itself, or through a mask it shares no bit
with.
-/

import Mathlib.Data.BitVec

namespace Gem5.Base

open BitVec

/-- `Flags<T>`: a word of `width` bits. -/
abbrev Flags (width : Nat) := BitVec width

namespace Flags

variable {width : Nat}

/-- `Flags::isSet(flags)`: some bit of the mask is set. -/
def isSet (flags mask : Flags width) : Bool :=
  flags &&& mask != 0

/-- `Flags::set(flags)`. -/
def set (flags mask : Flags width) : Flags width :=
  flags ||| mask

/-- `Flags::clear(flags)`. -/
def clear (flags mask : Flags width) : Flags width :=
  flags &&& ~~~mask

theorem set_and (flags mask other : Flags width) :
    flags.set mask &&& other = (flags &&& other) ||| (mask &&& other) := by
  refine eq_of_getLsbD_eq fun index bound => ?_
  simp only [set, getLsbD_and, getLsbD_or]
  exact Bool.and_or_distrib_right _ _ _

variable {flags mask other : Flags width}

section

variable (disjoint : mask &&& other = 0)
include disjoint

theorem set_and_of_disjoint :
    flags.set mask &&& other = flags &&& other := by
  rw [set_and, disjoint]
  exact or_zero

theorem clear_and_of_disjoint :
    flags.clear mask &&& other = flags &&& other := by
  refine eq_of_getLsbD_eq fun index bound => ?_
  have bit := congrArg (fun word => word.getLsbD index) disjoint
  simp only [clear, getLsbD_and, getLsbD_not] at bit ⊢
  simp at bit
  cases h : other.getLsbD index <;> simp_all

theorem isSet_set_of_disjoint :
    (flags.set mask).isSet other = flags.isSet other := by
  rw [isSet, set_and_of_disjoint disjoint, isSet]

theorem isSet_clear_of_disjoint :
    (flags.clear mask).isSet other = flags.isSet other := by
  rw [isSet, clear_and_of_disjoint disjoint, isSet]

end

theorem isSet_set_self (nonzero : mask ≠ 0) : (flags.set mask).isSet mask = true := by
  have absorbed : flags.set mask &&& mask = mask := by
    refine eq_of_getLsbD_eq fun index bound => ?_
    simp only [set, getLsbD_and, getLsbD_or]
    cases mask.getLsbD index <;> simp
  rw [isSet, absorbed]
  simpa using nonzero

theorem isSet_clear_of_subset {part : Flags width} (subset : part &&& mask = part) :
    (flags.clear mask).isSet part = false := by
  have cleared : flags.clear mask &&& part = 0 := by
    refine eq_of_getLsbD_eq fun index bound => ?_
    have bit := congrArg (fun word => word.getLsbD index) subset
    simp only [clear, getLsbD_and, getLsbD_not] at bit ⊢
    cases h : mask.getLsbD index <;> simp_all
  rw [isSet, cleared]
  simp

end Flags

end Gem5.Base
