/-
This file models the linked structure of the event queue: bins of events with
one timestamp and priority, linked by `nextBin` from top to top, each a stack
linked by `nextInBin`. `insert`, `remove` and the unlinking step of
`serviceOne` are translated as they write the links, with the `nextBin` of a
covered stack member left stale. A representation ties the links to a list of
bins, and each operation is shown to act on the listed events as an insertion
before the first event that is not smaller, as the erasure of the event, or as
the removal of the first event.
-/

import Gem5.Library.Segment
import Gem5.Sim.Event
import Mathlib.Data.List.Flatten
import Mathlib.Data.List.TakeWhile

namespace Gem5.Sim

open Library List Function Event

/-- How a call on the simulator can fail. `assertion` is a violated `assert`, `eventNotFound`
the panic of `remove`, `nullPointer` a read through a null pointer, `useAfterFree` a use of a
deleted event, `endless` a walk along a cycle of links and `unserialize` the fatal error for a
parameter that a checkpoint does not hold. `outOfTurn` is no failure of the code: the thread is
not at a point of its program where it could take the step. -/
inductive Fault where
  | assertion
  | eventNotFound
  | nullPointer
  | useAfterFree
  | endless
  | unserialize
  | outOfTurn
  deriving DecidableEq, Repr

/-- The two link fields of every event and the `head` of every queue. -/
structure Links (Ptr : Type) where
  head : QueueId → Option Ptr
  nextBin : Ptr → Option Ptr
  nextInBin : Ptr → Option Ptr

section Code

variable {Ptr : Type} [DecidableEq Ptr]

/-- `Event::insertBefore(event, curr)`. -/
def insertBefore (events : Ptr → Event) (event : Ptr) (curr : Option Ptr) (links : Links Ptr) :
    Links Ptr × Option Ptr :=
  match curr with
  | none =>
    ({ links with
        nextBin := update links.nextBin event none
        nextInBin := update links.nextInBin event none }, some event)
  | some top =>
    if (events event).lt (events top) then
      ({ links with
          nextBin := update links.nextBin event (some top)
          nextInBin := update links.nextInBin event none }, some event)
    else
      ({ links with
          nextBin := update links.nextBin event (links.nextBin top)
          nextInBin := update links.nextInBin event (some top) }, some event)

/-- The walk of `insert` and `remove` along the tops of the bins:
`while (curr && *curr < *event) { prev = curr; curr = curr->nextBin; }`. -/
def findBin (events : Ptr → Event) (links : Links Ptr) (event : Ptr) :
    Nat → Ptr → Option Ptr → Except Fault (Ptr × Option Ptr)
  | 0, _, _ => .error .endless
  | _ + 1, prev, none => .ok (prev, none)
  | fuel + 1, prev, some curr =>
    if (events curr).lt (events event) then
      findBin events links event fuel curr (links.nextBin curr)
    else
      .ok (prev, some curr)

/-- The walk of `removeItem` down a stack: the member above `event`, and the panic when the
stack ends first. -/
def findInBin (links : Links Ptr) (event : Ptr) : Nat → Ptr → Option Ptr → Except Fault Ptr
  | 0, _, _ => .error .endless
  | _ + 1, _, none => .error .eventNotFound
  | fuel + 1, curr, some next =>
    if event = next then .ok curr else findInBin links event fuel next (links.nextInBin next)

variable [Fintype Ptr]

/-- Any walk longer than the number of events runs in a cycle. -/
def walkFuel (Ptr : Type) [Fintype Ptr] : Nat := Fintype.card Ptr + 1

/-- `EventQueue::insert(event)` on queue `this`. -/
def Links.insert (events : Ptr → Event) (this : QueueId) (event : Ptr) (links : Links Ptr) :
    Except Fault (Links Ptr) :=
  match links.head this with
  | none =>
    let (links, top) := insertBefore events event none links
    .ok { links with head := update links.head this top }
  | some head =>
    if (events event).le (events head) then
      let (links, top) := insertBefore events event (some head) links
      .ok { links with head := update links.head this top }
    else do
      let (prev, curr) ← findBin events links event (walkFuel Ptr) head (links.nextBin head)
      let (links, top) := insertBefore events event curr links
      return { links with nextBin := update links.nextBin prev top }

/-- `Event::removeItem(event, top)`: the links after the removal and the new top. -/
def removeItem (event top : Ptr) (links : Links Ptr) : Except Fault (Links Ptr × Option Ptr) :=
  if event = top then
    match links.nextInBin top with
    | none => .ok (links, links.nextBin top)
    | some next =>
      .ok ({ links with nextBin := update links.nextBin next (links.nextBin top) },
        some next)
  else do
    let curr ← findInBin links event (walkFuel Ptr) top (links.nextInBin top)
    return ({ links with
      nextInBin := update links.nextInBin curr (links.nextInBin event) }, some top)

/-- `EventQueue::remove(event)` on queue `this`. -/
def Links.remove (events : Ptr → Event) (this : QueueId) (event : Ptr) (links : Links Ptr) :
    Except Fault (Links Ptr) :=
  match links.head this with
  | none => .error .eventNotFound
  | some head =>
    if (events event).queue ≠ some this then
      .error .assertion
    else if (events head).eq (events event) then do
      let (links, top) ← removeItem event head links
      return { links with head := update links.head this top }
    else do
      let (prev, curr) ← findBin events links event (walkFuel Ptr) head (links.nextBin head)
      match curr with
      | none => .error .eventNotFound
      | some curr =>
        if (events curr).ne (events event) then
          .error .eventNotFound
        else do
          let (links, top) ← removeItem event curr links
          return { links with nextBin := update links.nextBin prev top }

omit [Fintype Ptr] in
/-- The unlinking step of `EventQueue::serviceOne()`: the head is popped, and the new top of
its stack takes over its `nextBin`, which may be stale. -/
def Links.pop (this : QueueId) (links : Links Ptr) : Links Ptr :=
  match links.head this with
  | none => links
  | some head =>
    match links.nextInBin head with
    | some next =>
      { links with
        nextBin := update links.nextBin next (links.nextBin head)
        head := update links.head this (some next) }
    | none => { links with head := update links.head this (links.nextBin head) }

end Code

/-! ### Bins -/

/-- A bin: its top and the events below it on the stack. -/
abbrev Bin (Ptr : Type) := Ptr × List Ptr

variable {Ptr : Type} {events : Ptr → Event} {event : Ptr} {bins : List (Bin Ptr)}

section Bins

variable {bin : Bin Ptr}

/-- The events of a list of bins in the order they are serviced. -/
def members (bins : List (Bin Ptr)) : List Ptr :=
  bins.flatMap fun bin => bin.1 :: bin.2

@[simp] theorem members_cons (bin : Bin Ptr) (bins : List (Bin Ptr)) :
    members (bin :: bins) = bin.1 :: bin.2 ++ members bins := rfl

@[simp] theorem members_append (first second : List (Bin Ptr)) :
    members (first ++ second) = members first ++ members second :=
  flatMap_append

theorem top_mem_members (member : bin ∈ bins) : bin.1 ∈ members bins :=
  mem_flatMap.mpr ⟨bin, member, mem_cons_self⟩

theorem below_mem_members (member : bin ∈ bins) (below : event ∈ bin.2) : event ∈ members bins :=
  mem_flatMap.mpr ⟨bin, member, mem_cons_of_mem _ below⟩

/-- The bins are well ordered: a bin holds events of one key, the keys ascend from bin to bin,
and no event is listed twice. -/
structure Layered (events : Ptr → Event) (bins : List (Bin Ptr)) : Prop where
  level : ∀ bin ∈ bins, ∀ event ∈ bin.2, (events event).key = (events bin.1).key
  ascending : bins.Pairwise fun left right => (events left.1).key < (events right.1).key
  nodup : (members bins).Nodup

/-- The links denote the bins: `nextBin` runs from `start` through the tops, and `nextInBin`
runs from each top through the events below it. Nothing is said of the `nextBin` of an event
below a top, which may be stale. -/
structure Linked (links : Links Ptr) (start : Option Ptr) (bins : List (Bin Ptr)) : Prop where
  spine : Segment links.nextBin start (bins.map Prod.fst) none
  columns : ∀ bin ∈ bins, Segment links.nextInBin (links.nextInBin bin.1) bin.2 none

theorem Linked.congr {links other : Links Ptr} {start : Option Ptr}
    (linked : Linked links start bins)
    (sameBin : ∀ event ∈ members bins, other.nextBin event = links.nextBin event)
    (sameInBin : ∀ event ∈ members bins, other.nextInBin event = links.nextInBin event) :
    Linked other start bins where
  spine := by
    refine linked.spine.congr fun top member => ?_
    obtain ⟨bin, listed, rfl⟩ := mem_map.mp member
    exact sameBin bin.1 (top_mem_members listed)
  columns bin listed := by
    rw [sameInBin bin.1 (top_mem_members listed)]
    exact (linked.columns bin listed).congr fun event below =>
      sameInBin event (below_mem_members listed below)

theorem Layered.sublist {part : List (Bin Ptr)} (layered : Layered events bins)
    (sublist : part.Sublist bins) : Layered events part where
  level bin listed := layered.level bin (sublist.subset listed)
  ascending := layered.ascending.sublist sublist
  nodup := layered.nodup.sublist (sublist.flatMap _)

theorem Layered.key_eq_top (layered : Layered events bins) (listed : bin ∈ bins)
    (inside : event ∈ bin.1 :: bin.2) : (events event).key = (events bin.1).key := by
  rcases mem_cons.mp inside with rfl | below
  · rfl
  · exact layered.level bin listed event below

end Bins

/-! ### Insertion -/

section Insertion

/-- The event before the first bin, or on top of it when the keys are equal. -/
def place (events : Ptr → Event) (event : Ptr) : List (Bin Ptr) → List (Bin Ptr)
  | [] => [(event, [])]
  | bin :: rest =>
    if (events event).lt (events bin.1) then (event, []) :: bin :: rest
    else (event, bin.1 :: bin.2) :: rest

/-- The bins passed by the walk: those whose top is smaller than the event. -/
def passed (events : Ptr → Event) (event : Ptr) (bins : List (Bin Ptr)) : List (Bin Ptr) :=
  bins.takeWhile fun bin => (events bin.1).lt (events event)

/-- The bins from where the walk stops. -/
def remaining (events : Ptr → Event) (event : Ptr) (bins : List (Bin Ptr)) : List (Bin Ptr) :=
  bins.dropWhile fun bin => (events bin.1).lt (events event)

/-- What `insert` does to the bins. -/
def binInsert (events : Ptr → Event) (event : Ptr) (bins : List (Bin Ptr)) : List (Bin Ptr) :=
  passed events event bins ++ place events event (remaining events event bins)

theorem passed_append_remaining (events : Ptr → Event) (event : Ptr) (bins : List (Bin Ptr)) :
    passed events event bins ++ remaining events event bins = bins :=
  takeWhile_append_dropWhile

theorem passed_sublist (events : Ptr → Event) (event : Ptr) (bins : List (Bin Ptr)) :
    (passed events event bins).Sublist bins :=
  takeWhile_sublist _

theorem remaining_sublist (events : Ptr → Event) (event : Ptr) (bins : List (Bin Ptr)) :
    (remaining events event bins).Sublist bins :=
  dropWhile_sublist _

theorem passed_lt {bin : Bin Ptr} (listed : bin ∈ passed events event bins) :
    (events bin.1).key < (events event).key := by
  have smaller := mem_takeWhile_imp listed
  exact (lt_iff _ _).mp (of_decide_eq_true smaller)

theorem remaining_head {rest : List (Bin Ptr)} {bin : Bin Ptr}
    (stopped : remaining events event bins = bin :: rest) :
    (events event).key ≤ (events bin.1).key := by
  have notSmaller := head?_dropWhile_not
    (fun bin : Bin Ptr => decide ((events bin.1).lt (events event))) bins
  rw [show bins.dropWhile (fun bin => decide ((events bin.1).lt (events event))) = bin :: rest
    from stopped] at notSmaller
  simpa [lt_iff] using notSmaller

@[simp] theorem members_place (bins : List (Bin Ptr)) :
    members (place events event bins) = event :: members bins := by
  cases bins with
  | nil => rfl
  | cons =>
    simp only [place]
    split <;> rfl

/-- The order the queue keeps its events in. -/
def keyLe (events : Ptr → Event) (left right : Ptr) : Prop :=
  (events left).key ≤ (events right).key
deriving Decidable

theorem orderedInsert_append {before after : List Ptr}
    (smaller : ∀ other ∈ before, (events other).key < (events event).key) :
    (before ++ after).orderedInsert (keyLe events) event =
      before ++ after.orderedInsert (keyLe events) event := by
  induction before with
  | nil => rfl
  | cons other _ hypothesis =>
    have stops : ¬ keyLe events event other := not_le_of_gt (smaller other mem_cons_self)
    rw [cons_append, orderedInsert_of_not_le _ _ stops,
      hypothesis fun next member => smaller next (mem_cons_of_mem _ member), cons_append]

section

variable (layered : Layered events bins)
include layered

theorem members_binInsert :
    members (binInsert events event bins) =
      (members bins).orderedInsert (keyLe events) event := by
  have split : members bins =
      members (passed events event bins) ++ members (remaining events event bins) := by
    rw [← members_append, passed_append_remaining]
  have smaller : ∀ other ∈ members (passed events event bins),
      (events other).key < (events event).key := by
    intro other member
    obtain ⟨_, listed, inside⟩ := mem_flatMap.mp member
    rw [layered.key_eq_top ((passed_sublist events event bins).subset listed) inside]
    exact passed_lt listed
  rw [split, orderedInsert_append smaller, binInsert, members_append, members_place]
  congr 1
  cases stopped : remaining events event bins with
  | nil => rfl
  | cons bin =>
    have stops : keyLe events event bin.1 := remaining_head stopped
    rw [members_cons, cons_append, orderedInsert_cons_of_le _ _ stops]

theorem place_tops
    (stops : ∀ bin rest, bins = bin :: rest → (events event).key ≤ (events bin.1).key) :
    ∃ below rest, place events event bins = (event, below) :: rest ∧ rest.Sublist bins ∧
      (∀ other ∈ below, (events other).key = (events event).key) ∧
      ∀ bin ∈ rest, (events event).key < (events bin.1).key := by
  cases bins with
  | nil => exact ⟨[], [], rfl, List.Sublist.refl _, by simp, by simp⟩
  | cons bin rest =>
    have larger := stops bin rest rfl
    simp only [place]
    split
    · rename_i before
      have strictly := (lt_iff _ _).mp before
      refine ⟨[], bin :: rest, rfl, List.Sublist.refl _, by simp, fun other listed => ?_⟩
      rcases mem_cons.mp listed with rfl | later
      · exact strictly
      · exact strictly.trans (rel_of_pairwise_cons layered.ascending later)
    · rename_i notBefore
      have same : (events bin.1).key = (events event).key :=
        le_antisymm (not_lt.mp fun lower => notBefore ((lt_iff _ _).mpr lower)) larger
      refine ⟨bin.1 :: bin.2, rest, rfl, sublist_cons_self bin rest, fun other inside => ?_,
        fun other later => ?_⟩
      · rw [layered.key_eq_top mem_cons_self inside, same]
      · rw [← same]
        exact rel_of_pairwise_cons layered.ascending later

theorem Layered.binInsert (fresh : event ∉ members bins) :
    Layered events (binInsert events event bins) := by
  obtain ⟨below, rest, placed, part, level, larger⟩ :=
    place_tops (layered.sublist (remaining_sublist events event bins))
      fun bin rest stopped => remaining_head stopped
  have restPart : rest.Sublist bins := part.trans (remaining_sublist events event bins)
  have passedPart := passed_sublist events event bins
  have shape : Sim.binInsert events event bins =
      passed events event bins ++ (event, below) :: rest := by
    rw [Sim.binInsert, placed]
  refine ⟨?_, ?_, ?_⟩
  · rw [shape]
    intro bin listed other inside
    rcases mem_append.mp listed with earlier | later
    · exact layered.level bin (passedPart.subset earlier) other inside
    · rcases mem_cons.mp later with rfl | later
      · exact level other inside
      · exact layered.level bin (restPart.subset later) other inside
  · rw [shape, pairwise_append, pairwise_cons]
    refine ⟨layered.ascending.sublist passedPart,
      ⟨larger, layered.ascending.sublist restPart⟩, ?_⟩
    intro left earlier right later
    rcases mem_cons.mp later with rfl | later
    · exact passed_lt earlier
    · exact (passed_lt earlier).trans (larger right later)
  · rw [members_binInsert layered, (perm_orderedInsert _ event _).nodup_iff]
    exact nodup_cons.mpr ⟨fresh, layered.nodup⟩

end

end Insertion

/-! ### What an operation leaves in place -/

/-- The operation on queue `this` wrote no head but its own and no link of an event outside
`touched`. -/
structure Links.Frame (this : QueueId) (touched : List Ptr) (before after : Links Ptr) :
    Prop where
  head : ∀ other, other ≠ this → after.head other = before.head other
  nextBin : ∀ event, event ∉ touched → after.nextBin event = before.nextBin event
  nextInBin : ∀ event, event ∉ touched → after.nextInBin event = before.nextInBin event

theorem Links.Frame.linked {this other : QueueId} {touched : List Ptr} {before after : Links Ptr}
    (frame : Links.Frame this touched before after) (different : other ≠ this)
    (linked : Linked before (before.head other) bins)
    (untouched : ∀ event ∈ members bins, event ∉ touched) :
    Linked after (after.head other) bins := by
  rw [frame.head other different]
  exact linked.congr (fun event member => frame.nextBin event (untouched event member))
    fun event member => frame.nextInBin event (untouched event member)

theorem Linked.splice [DecidableEq Ptr] {links changed : Links Ptr} {start top : Option Ptr}
    {before tail exchanged : List (Bin Ptr)} {earlier : List Ptr} {last : Ptr}
    (linked : Linked links start (before ++ tail)) (nodup : (members before).Nodup)
    (behind : before.map Prod.fst = earlier ++ [last])
    (sameBin : ∀ event ∈ members before, changed.nextBin event = links.nextBin event)
    (sameInBin : ∀ event ∈ members before, changed.nextInBin event = links.nextInBin event)
    (replaced : Linked changed top exchanged) (outside : last ∉ members exchanged) :
    Linked { changed with nextBin := update changed.nextBin last top } start
      (before ++ exchanged) := by
  have tops : (before.map Prod.fst).Nodup := by
    refine nodup.sublist ?_
    rw [members, ← flatMap_singleton' (before.map Prod.fst), flatMap_map]
    exact List.Sublist.flatMap_right before fun bin _ =>
      (nil_sublist bin.2).cons_cons bin.1
  have fresh : last ∉ earlier := by
    rw [behind] at tops
    exact fun member => (disjoint_of_nodup_append tops) member (mem_singleton_self last)
  obtain ⟨middle, front, _⟩ := segment_append.mp (map_append ▸ linked.spine)
  have moved : Segment changed.nextBin start (before.map Prod.fst) middle := by
    refine front.congr fun item member => ?_
    obtain ⟨bin, listed, rfl⟩ := mem_map.mp member
    exact sameBin bin.1 (top_mem_members listed)
  refine ⟨?_, fun bin listed => ?_⟩
  · rw [map_append]
    refine segment_append.mpr ⟨top, ?_, ?_⟩
    · rw [behind] at moved ⊢
      exact moved.redirect fresh top
    · refine replaced.spine.update (fun member => ?_) top
      obtain ⟨_, listed, rfl⟩ := mem_map.mp member
      exact outside (top_mem_members listed)
  · rcases mem_append.mp listed with front | back
    · have column := linked.columns bin (mem_append_left tail front)
      rw [← sameInBin bin.1 (top_mem_members front)] at column
      exact column.congr fun event below => sameInBin event (below_mem_members front below)
    · exact replaced.columns bin back

/-! ### The insertion of the code -/

section InsertionCode

variable [DecidableEq Ptr] {links : Links Ptr}

theorem insertBefore_spec (events : Ptr → Event) {curr : Option Ptr}
    (linked : Linked links curr bins) (fresh : event ∉ members bins) :
    ∃ nextBin nextInBin,
      insertBefore events event curr links =
        ({ links with
            nextBin := update links.nextBin event nextBin
            nextInBin := update links.nextInBin event nextInBin }, some event) ∧
      Linked { links with
          nextBin := update links.nextBin event nextBin
          nextInBin := update links.nextInBin event nextInBin }
        (some event) (place events event bins) := by
  have outside : ∀ bin ∈ bins, event ≠ bin.1 ∧ event ∉ bin.2 := fun bin listed =>
    ⟨fun same => fresh (same ▸ top_mem_members listed),
      fun inside => fresh (below_mem_members listed inside)⟩
  have notTop : event ∉ bins.map Prod.fst := fun member => by
    obtain ⟨bin, listed, same⟩ := mem_map.mp member
    exact (outside bin listed).1 same.symm
  have column (link : Option Ptr) (bin : Bin Ptr) (listed : bin ∈ bins) :
      Segment (update links.nextInBin event link)
        (update links.nextInBin event link bin.1) bin.2 none := by
    rw [update_of_ne (outside bin listed).1.symm]
    exact (linked.columns bin listed).update (outside bin listed).2 link
  cases bins with
  | nil =>
    have none : curr = none := linked.spine
    subst none
    refine ⟨none, none, rfl, ⟨rfl, ?_⟩, ?_⟩
    · exact update_self event none links.nextBin
    · intro bin listed
      rw [place, mem_singleton] at listed
      subst listed
      exact update_self event none links.nextInBin
  | cons bin rest =>
    obtain ⟨begins, continued⟩ := linked.spine
    subst begins
    have notLater : event ∉ rest.map Prod.fst := fun member => notTop (mem_cons_of_mem _ member)
    simp only [insertBefore, place]
    split
    · refine ⟨some bin.1, none, rfl, ⟨rfl, ?_⟩, ?_⟩
      · simp only [update_self]
        exact linked.spine.update notTop (some bin.1)
      · intro other listed
        rcases mem_cons.mp listed with rfl | later
        · exact update_self event none links.nextInBin
        · exact column none other later
    · refine ⟨links.nextBin bin.1, some bin.1, rfl, ⟨rfl, ?_⟩, ?_⟩
      · simp only [update_self]
        exact Segment.update continued notLater _
      · intro other listed
        rcases mem_cons.mp listed with rfl | later
        · simp only [update_self]
          exact ⟨rfl, column (some bin.1) bin mem_cons_self⟩
        · exact column (some bin.1) other (mem_cons_of_mem bin later)

omit [DecidableEq Ptr] in
theorem findBin_spec (events : Ptr → Event) (event : Ptr) {fuel : Nat} (prev : Ptr)
    {curr : Option Ptr} (spine : Segment links.nextBin curr (bins.map Prod.fst) none)
    (enough : bins.length < fuel) :
    ∃ last next earlier, findBin events links event fuel prev curr = .ok (last, next) ∧
      prev :: (passed events event bins).map Prod.fst = earlier ++ [last] ∧
      Segment links.nextBin next ((remaining events event bins).map Prod.fst) none := by
  induction bins generalizing fuel prev curr with
  | nil =>
    obtain ⟨_, rfl⟩ := Nat.exists_eq_succ_of_ne_zero (ne_of_gt enough)
    have none : curr = none := spine
    subst none
    exact ⟨prev, none, [], rfl, rfl, rfl⟩
  | cons bin _ hypothesis =>
    obtain ⟨_, rfl⟩ := Nat.exists_eq_succ_of_ne_zero (ne_of_gt (Nat.zero_lt_of_lt enough))
    obtain ⟨begins, continued⟩ := spine
    subst begins
    by_cases smaller : (events bin.1).lt (events event)
    · obtain ⟨last, next, earlier, walked, behind, before⟩ :=
        hypothesis bin.1 continued (Nat.lt_of_succ_lt_succ enough)
      refine ⟨last, next, prev :: earlier, ?_, ?_, ?_⟩
      · rw [findBin, if_pos smaller, walked]
      · rw [passed, takeWhile_cons_of_pos (by simpa using smaller), map_cons, cons_append, ← behind]
        rfl
      · rw [remaining, dropWhile_cons_of_pos (by simpa using smaller)]
        exact before
    · refine ⟨prev, some bin.1, [], ?_, ?_, ?_⟩
      · rw [findBin, if_neg smaller]
      · rw [passed, takeWhile_cons_of_neg (by simpa using smaller)]
        rfl
      · rw [remaining, dropWhile_cons_of_neg (by simpa using smaller)]
        exact ⟨rfl, continued⟩

omit [DecidableEq Ptr] in
theorem length_le_members (bins : List (Bin Ptr)) : bins.length ≤ (members bins).length := by
  induction bins with
  | nil => exact le_rfl
  | cons _ _ hypothesis =>
    rw [members_cons, length_append, length_cons, length_cons]
    omega

omit [DecidableEq Ptr] in
theorem Layered.length_lt [Fintype Ptr] (layered : Layered events bins) :
    bins.length < walkFuel Ptr :=
  Nat.lt_succ_of_le ((length_le_members bins).trans layered.nodup.length_le_card)

omit [DecidableEq Ptr] in
theorem members_passed_remaining (events : Ptr → Event) (event : Ptr) (bins : List (Bin Ptr)) :
    members bins = members (passed events event bins) ++ members (remaining events event bins) := by
  rw [← members_append, passed_append_remaining]

omit [DecidableEq Ptr] in
theorem walk_spec [Fintype Ptr] {bin : Bin Ptr} {rest : List (Bin Ptr)}
    (linked : Linked links (some bin.1) (bin :: rest)) (layered : Layered events (bin :: rest))
    (smaller : (events bin.1).lt (events event)) :
    ∃ last next earlier,
      findBin events links event (walkFuel Ptr) bin.1 (links.nextBin bin.1) = .ok (last, next) ∧
      (passed events event (bin :: rest)).map Prod.fst = earlier ++ [last] ∧
      last ∈ members (passed events event (bin :: rest)) ∧
      Linked links next (remaining events event (bin :: rest)) := by
  obtain ⟨last, next, earlier, walked, behind, before⟩ :=
    findBin_spec events event bin.1 linked.spine.2 (Nat.lt_of_succ_lt layered.length_lt)
  have passes : passed events event (bin :: rest) = bin :: passed events event rest :=
    takeWhile_cons_of_pos (by simpa using smaller)
  have stays : remaining events event (bin :: rest) = remaining events event rest :=
    dropWhile_cons_of_pos (by simpa using smaller)
  rw [← map_cons (f := Prod.fst) (a := bin), ← passes] at behind
  have member : last ∈ (passed events event (bin :: rest)).map Prod.fst := by
    rw [behind]
    exact mem_append_right _ (mem_singleton_self last)
  obtain ⟨_, inside, same⟩ := mem_map.mp member
  refine ⟨last, next, earlier, walked, behind, same ▸ top_mem_members inside, ?_, ?_⟩
  · rw [stays]
    exact before
  · exact fun other listed =>
      linked.columns other ((remaining_sublist events event _).subset listed)

theorem Links.insert_spec [Fintype Ptr] {this : QueueId}
    (linked : Linked links (links.head this) bins)
    (layered : Layered events bins) (fresh : event ∉ members bins) :
    ∃ after, links.insert events this event = .ok after ∧
      Linked after (after.head this) (binInsert events event bins) ∧
      Links.Frame this (event :: members bins) links after := by
  have split := passed_append_remaining events event bins
  have listed := members_passed_remaining events event bins
  have atHead (stops : passed events event bins = [])
      (code : links.insert events this event =
        .ok { (insertBefore events event (links.head this) links).1 with
          head := update (insertBefore events event (links.head this) links).1.head this
            (insertBefore events event (links.head this) links).2 }) :
      ∃ after, links.insert events this event = .ok after ∧
        Linked after (after.head this) (binInsert events event bins) ∧
        Links.Frame this (event :: members bins) links after := by
    obtain ⟨_, _, written, placed⟩ :=
      insertBefore_spec events linked fresh
    rw [written] at code
    rw [stops, nil_append] at split
    refine ⟨_, code, ?_, ⟨?_, ?_, ?_⟩⟩
    · simp only [update_self]
      rw [binInsert, stops, split, nil_append]
      exact ⟨placed.spine, placed.columns⟩
    · exact fun other different => update_of_ne different _ _
    · exact fun other outside => update_of_ne (ne_of_not_mem_cons outside) _ _
    · exact fun other outside => update_of_ne (ne_of_not_mem_cons outside) _ _
  cases bins with
  | nil =>
    have empty : links.head this = none := linked.spine
    refine atHead rfl ?_
    rw [Links.insert, empty]
  | cons bin rest =>
    have begins : links.head this = some bin.1 := linked.spine.1
    by_cases first : (events event).le (events bin.1)
    · have notSmaller : ¬ (events bin.1).lt (events event) := fun smaller =>
        absurd ((lt_iff _ _).mp smaller) (not_lt.mpr ((le_iff _ _).mp first))
      refine atHead (takeWhile_cons_of_neg (by simpa using notSmaller)) ?_
      simp only [Links.insert, begins, if_pos first]
    · have smaller : (events bin.1).lt (events event) := by
        rw [lt_iff]
        exact not_le.mp fun larger => first ((le_iff _ _).mpr larger)
      rw [begins] at linked
      obtain ⟨last, _, _, walked, behind, lastPassed, tail⟩ :=
        walk_spec linked layered smaller
      have nodup := layered.nodup
      rw [listed] at fresh nodup
      obtain ⟨notPassed, notRemaining⟩ := not_or.mp (mem_append.not.mp fresh)
      obtain ⟨nextBin, nextInBin, written, placed⟩ :=
        insertBefore_spec events tail notRemaining
      have notEvent {other : Ptr} (inside : other ∈ members (passed events event (bin :: rest))) :
          other ≠ event := ne_of_mem_of_not_mem inside notPassed
      have code : links.insert events this event =
          .ok { links with
            nextBin := update (update links.nextBin event nextBin) last
              (some event)
            nextInBin := update links.nextInBin event nextInBin } := by
        simp only [Links.insert, begins, if_neg first, walked, bind, Except.bind, written]
        rfl
      refine ⟨_, code, ?_, ⟨fun _ _ => rfl, fun other outside => ?_, fun other outside => ?_⟩⟩
      · simp only [begins]
        refine Linked.splice (split.symm ▸ linked) (List.Nodup.of_append_left nodup) behind
          (fun other inside => update_of_ne (notEvent inside) _ _)
          (fun other inside => update_of_ne (notEvent inside) _ _) placed ?_
        rw [members_place]
        exact not_mem_cons_of_ne_of_not_mem (notEvent lastPassed)
          (disjoint_of_nodup_append nodup lastPassed)
      · have apart : other ≠ last := fun same =>
          outside (mem_cons_of_mem _ (listed ▸ mem_append_left _ (same ▸ lastPassed)))
        simp only
        rw [update_of_ne apart, update_of_ne (ne_of_not_mem_cons outside)]
      · exact update_of_ne (ne_of_not_mem_cons outside) _ _

end InsertionCode

end Gem5.Sim
