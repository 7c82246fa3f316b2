/-
This file is the library of paths in a graph with weights. A distance that no edge
can shorten is a bound for every path, the edges that use up exactly the distance
make shortest paths, and if each of them has some weight they never come to a vertex
again. A table of distances that is only lowered by way of another vertex always has
the weights of walks in it.
-/

import Mathlib.Algebra.Order.Group.Int
import Mathlib.Data.List.Nodup

namespace Gem5.Library

open List

variable {Vertex : Type}

/-! ### Paths and potentials -/

/-- A path from one vertex to another, with the vertices on it and its total weight. -/
inductive Path (edge : Vertex → Vertex → Int → Prop) :
    Vertex → List Vertex → Int → Vertex → Prop where
  | nil (vertex : Vertex) : Path edge vertex [vertex] 0 vertex
  | cons {vertex next last : Vertex} {weight total : Int} {visited : List Vertex}
    (taken : edge vertex next weight) (rest : Path edge next visited total last) :
    Path edge vertex (vertex :: visited) (weight + total) last

namespace Path

variable {edge : Vertex → Vertex → Int → Prop} {start middle last : Vertex}
  {visited later : List Vertex} {total rest : Int}

theorem append (first : Path edge start visited total middle)
    (second : Path edge middle later rest last) :
    ∃ all, Path edge start all (total + rest) last := by
  induction first with
  | nil =>
    rw [Int.zero_add]
    exact ⟨later, second⟩
  | cons taken _ hypothesis =>
    obtain ⟨_, path⟩ := hypothesis second
    rw [Int.add_assoc]
    exact ⟨_, .cons taken path⟩

variable {potential : Vertex → Int} (path : Path edge start visited total last)
include path

theorem le_of_potential (bounds : ∀ vertex next weight, edge vertex next weight →
      potential vertex ≤ weight + potential next) : potential start ≤ total + potential last := by
  induction path with
  | nil => rw [Int.zero_add]
  | @cons vertex next last weight total _ taken _ hypothesis =>
    calc potential vertex ≤ weight + potential next := bounds _ _ _ taken
      _ ≤ weight + (total + potential last) := Int.add_le_add_left hypothesis _
      _ = weight + total + potential last := (Int.add_assoc ..).symm

theorem eq_of_tight (tight : ∀ vertex next weight, edge vertex next weight →
      potential vertex = weight + potential next) : potential start = total + potential last := by
  induction path with
  | nil => rw [Int.zero_add]
  | cons taken _ hypothesis =>
    rw [tight _ _ _ taken, hypothesis, Int.add_assoc]

section

variable
  (lowers : ∀ vertex next weight, edge vertex next weight → potential next < potential vertex)
include lowers

theorem le_of_mem : ∀ vertex ∈ visited, potential vertex ≤ potential start := by
  induction path with
  | nil =>
    intro other member
    rw [mem_singleton.mp member]
  | cons taken _ hypothesis =>
    intro other member
    rcases mem_cons.mp member with rfl | later
    · exact Int.le_refl _
    · exact Int.le_trans (hypothesis other later) (Int.le_of_lt (lowers _ _ _ taken))

theorem nodup : visited.Nodup := by
  induction path with
  | nil vertex => exact nodup_singleton vertex
  | @cons vertex _ _ _ _ _ taken continued hypothesis =>
    refine nodup_cons.mpr ⟨fun member => ?_, hypothesis⟩
    exact Int.not_lt.mpr (continued.le_of_mem lowers vertex member) (lowers _ _ _ taken)

end

theorem last_mem : last ∈ visited := by
  induction path with
  | nil vertex => exact mem_singleton_self vertex
  | cons _ _ hypothesis => exact mem_cons_of_mem _ hypothesis

theorem mem_of_edge {inside : Vertex → Prop}
    (stays : ∀ vertex next weight, edge vertex next weight → inside next)
    (begins : inside start) : ∀ vertex ∈ visited, inside vertex := by
  induction path with
  | nil =>
    intro other member
    rw [mem_singleton.mp member]
    exact begins
  | cons taken _ hypothesis =>
    intro other member
    rcases mem_cons.mp member with rfl | later
    · exact begins
    · exact hypothesis (stays _ _ _ taken) other later

end Path

/-! ### Tables of distances -/

/-- The weight of a walk between two of the vertices in a table of weights. -/
inductive Walk (weights : Vertex → Vertex → Int) (inside : Vertex → Prop) :
    Vertex → Vertex → Int → Prop where
  | edge {first second : Vertex} (left : inside first) (right : inside second) :
    Walk weights inside first second (weights first second)
  | join {first middle second : Vertex} {before after : Int}
    (left : Walk weights inside first middle before)
    (right : Walk weights inside middle second after) :
    Walk weights inside first second (before + after)

namespace Walk

variable {weights : Vertex → Vertex → Int} {inside : Vertex → Prop} {first second : Vertex}
  {total : Int} (walk : Walk weights inside first second total)
include walk

theorem ends : inside first ∧ inside second := by
  induction walk with
  | edge left right => exact ⟨left, right⟩
  | join _ _ left right => exact ⟨left.1, right.2⟩

variable (positive : ∀ first second, inside first → inside second → 0 ≤ weights first second)
include positive

theorem nonneg : 0 ≤ total := by
  induction walk with
  | edge left right => exact positive _ _ left right
  | join _ _ left right => exact Int.add_nonneg left right

theorem path {edge : Vertex → Vertex → Int → Prop} {far : Int}
    (linked : ∀ first second, inside first → inside second → weights first second < far →
      first = second ∧ weights first second = 0 ∨ edge first second (weights first second))
    (near : total < far) : ∃ visited, Path edge first visited total second := by
  induction walk with
  | @edge first second left right =>
    rcases linked first second left right near with ⟨rfl, zero⟩ | taken
    · rw [zero]
      exact ⟨_, .nil first⟩
    · rw [← Int.add_zero (weights first second)]
      exact ⟨_, .cons taken (.nil second)⟩
  | join left right before after =>
    have := left.nonneg positive
    have := right.nonneg positive
    obtain ⟨_, first⟩ := before (by omega)
    obtain ⟨_, second⟩ := after (by omega)
    exact first.append second

end Walk

end Gem5.Library
