/-
This file is the library of linked segments. A store of links maps every item to
the item it points at, if any; a segment is the list of items met by following
the links from a start to a stop. The lemmas split and join segments, move them
past writes elsewhere in the store, and redirect the last link of a segment.
-/

import Mathlib.Data.List.Basic

namespace Gem5.Library

open Function List

variable {Item : Type}

/-- Following `next` from `start` meets exactly `items`, in this order, and arrives at
`stop`. -/
def Segment (next : Item → Option Item) : Option Item → List Item → Option Item → Prop
  | start, [], stop => start = stop
  | start, item :: rest, stop => start = some item ∧ Segment next (next item) rest stop

variable {next : Item → Option Item} {start stop : Option Item} {items : List Item}

theorem Segment.congr {other : Item → Option Item} (segment : Segment next start items stop)
    (same : ∀ item ∈ items, other item = next item) : Segment other start items stop := by
  induction items generalizing start with
  | nil => exact segment
  | cons item _ hypothesis =>
    obtain ⟨first, continued⟩ := segment
    refine ⟨first, ?_⟩
    rw [same item mem_cons_self]
    exact hypothesis continued fun other member =>
      same other (mem_cons_of_mem item member)

theorem Segment.update [DecidableEq Item] (segment : Segment next start items stop) {item : Item}
    (outside : item ∉ items) (link : Option Item) :
    Segment (update next item link) start items stop :=
  segment.congr fun _ member =>
    update_of_ne (ne_of_mem_of_not_mem member outside) _ _

theorem segment_append {first second : List Item} :
    Segment next start (first ++ second) stop ↔
      ∃ middle, Segment next start first middle ∧ Segment next middle second stop := by
  induction first generalizing start with
  | nil =>
    constructor
    · intro segment
      exact ⟨start, rfl, segment⟩
    · rintro ⟨_, same, segment⟩
      exact same ▸ segment
  | cons _ _ hypothesis =>
    simp only [cons_append, Segment, hypothesis]
    constructor
    · rintro ⟨begins, middle, left, right⟩
      exact ⟨middle, ⟨begins, left⟩, right⟩
    · rintro ⟨middle, ⟨begins, left⟩, right⟩
      exact ⟨begins, middle, left, right⟩

theorem Segment.link_eq {front rest : List Item} {first second : Item}
    (segment : Segment next start (front ++ first :: second :: rest) stop) :
    next first = some second := by
  obtain ⟨_, _, _, link, _⟩ := segment_append.mp segment
  exact link

theorem Segment.link_last {front : List Item} {last : Item}
    (segment : Segment next start (front ++ [last]) stop) : next last = stop := by
  obtain ⟨_, _, _, link⟩ := segment_append.mp segment
  exact link

theorem Segment.start_mem {item : Item} (segment : Segment next (some item) items stop)
    (present : items ≠ []) :
    item ∈ items := by
  cases items with
  | nil => exact absurd rfl present
  | cons =>
    rw [Option.some.inj segment.1]
    exact mem_cons_self

theorem Segment.redirect [DecidableEq Item] {last : Item}
    (segment : Segment next start (items ++ [last]) stop)
    (outside : last ∉ items) (target : Option Item) :
    Segment (Function.update next last target) start (items ++ [last]) target := by
  obtain ⟨middle, before, begins, _⟩ := segment_append.mp segment
  refine segment_append.mpr ⟨middle, before.update outside target, begins, ?_⟩
  exact update_self last target next

theorem Segment.unlink [DecidableEq Item] {before after : List Item} {last item : Item}
    (segment : Segment next start (before ++ [last] ++ item :: after) stop)
    (notBefore : last ∉ before) (notAfter : last ∉ after) :
    Segment (Function.update next last (next item)) start (before ++ [last] ++ after) stop := by
  obtain ⟨_, front, _, back⟩ := segment_append.mp segment
  exact segment_append.mpr
    ⟨next item, front.redirect notBefore (next item), back.update notAfter (next item)⟩

end Gem5.Library
