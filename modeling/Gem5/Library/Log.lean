/-
This file is the library of logs: lists of records with the newest record
first. It says what has been recorded since a given record, and how that grows
with the log.
-/

import Mathlib.Data.List.Basic

namespace Gem5.Library

variable {Entry : Type} {entry newest : Entry} {later log : List Entry}

/-- The entry is in the log, with the later ones after it. -/
def Since (entry : Entry) (later log : List Entry) : Prop :=
  ∃ earlier, log = later ++ entry :: earlier

theorem not_since_nil : ¬ Since entry later [] := by
  rintro ⟨_, split⟩
  cases later <;> cases split

theorem since_cons_iff : Since entry later (newest :: log) ↔
    later = [] ∧ newest = entry ∨ ∃ rest, later = newest :: rest ∧ Since entry rest log := by
  constructor
  · rintro ⟨earlier, split⟩
    cases later with
    | nil =>
      cases split
      exact .inl ⟨rfl, rfl⟩
    | cons _ rest =>
      cases split
      exact .inr ⟨rest, rfl, earlier, rfl⟩
  · rintro (⟨rfl, rfl⟩ | ⟨_, rfl, earlier, rfl⟩)
    · exact ⟨log, rfl⟩
    · exact ⟨earlier, rfl⟩

theorem Since.of_ne (since : Since entry later (newest :: log)) (different : newest ≠ entry) :
    ∃ rest, later = newest :: rest ∧ Since entry rest log :=
  (since_cons_iff.mp since).resolve_left fun both => different both.2

end Gem5.Library
