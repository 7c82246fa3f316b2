/-
This file proves what `remove` and the unlinking step of `serviceOne` do to the
bins. A removal is the erasure of the event from the listed events, or the
panic when the event is not listed; the unlinking step drops the first listed
event. The top of a stack takes over the `nextBin` of the top it replaces, which
is where a stale link is repaired.
-/

import Gem5.Sim.BinQueue

namespace Gem5.Sim

open Library List Function

/-! ### Removal from the bins -/

section Removal

variable {Ptr : Type} [DecidableEq Ptr] {events : Ptr → Event} {event : Ptr}

omit [DecidableEq Ptr] in
/-- The bins after the top of the first one is removed. -/
def uncover (bin : Bin Ptr) (rest : List (Bin Ptr)) : List (Bin Ptr) :=
  match bin.2 with
  | [] => rest
  | next :: below => (next, below) :: rest

/-- The bins after the event is removed from the first one. -/
def takeOut (event : Ptr) (bin : Bin Ptr) (rest : List (Bin Ptr)) : List (Bin Ptr) :=
  if event = bin.1 then uncover bin rest else (bin.1, bin.2.erase event) :: rest

omit [DecidableEq Ptr] in
theorem members_uncover (bin : Bin Ptr) (rest : List (Bin Ptr)) :
    members (uncover bin rest) = bin.2 ++ members rest := by
  unfold uncover
  split
  · rename_i empty
    rw [empty, nil_append]
  · rename_i next below column
    rw [column, members_cons]

theorem members_takeOut (bin : Bin Ptr) (rest : List (Bin Ptr)) :
    members (takeOut event bin rest) = (bin.1 :: bin.2).erase event ++ members rest := by
  unfold takeOut
  split
  · rename_i same
    rw [members_uncover, same, erase_cons_head]
  · rename_i different
    rw [members_cons, erase_cons_tail (by simpa using Ne.symm different)]

variable {rest : List (Bin Ptr)} {bin : Bin Ptr} {links : Links Ptr} {this : QueueId}
  {list : List Ptr}

omit [DecidableEq Ptr] in
theorem Layered.replace {before : List (Bin Ptr)} {other : Bin Ptr}
    (layered : Layered events (before ++ bin :: rest))
    (part : (other.1 :: other.2).Sublist (bin.1 :: bin.2)) :
    Layered events (before ++ other :: rest) := by
  have listed : bin ∈ before ++ bin :: rest := mem_append_right _ mem_cons_self
  have sameKey {event : Ptr} (inside : event ∈ other.1 :: other.2) :
      (events event).key = (events bin.1).key := layered.key_eq_top listed (part.subset inside)
  have topKey := sameKey mem_cons_self
  refine ⟨?_, ?_, ?_⟩
  · intro third member event inside
    rcases mem_append.mp member with earlier | later
    · exact layered.level third (mem_append_left _ earlier) event inside
    · rcases mem_cons.mp later with rfl | later
      · rw [sameKey (mem_cons_of_mem _ inside), topKey]
      · exact layered.level third
          (mem_append_right _ (mem_cons_of_mem _ later)) event inside
  · have ascending := layered.ascending
    rw [pairwise_append, pairwise_cons] at ascending ⊢
    obtain ⟨front, ⟨larger, back⟩, across⟩ := ascending
    refine ⟨front, ⟨fun third later => topKey ▸ larger third later, back⟩, ?_⟩
    intro left earlier right later
    rcases mem_cons.mp later with rfl | later
    · rw [topKey]
      exact across left earlier bin mem_cons_self
    · exact across left earlier right (mem_cons_of_mem _ later)
  · refine layered.nodup.sublist ?_
    rw [members_append, members_append, members_cons, members_cons]
    exact (List.Sublist.refl _).append (part.append (List.Sublist.refl _))

theorem Layered.takeOut {before : List (Bin Ptr)}
    (layered : Layered events (before ++ bin :: rest)) :
    Layered events (before ++ takeOut event bin rest) := by
  unfold Sim.takeOut
  split
  · unfold uncover
    split
    · exact layered.sublist ((List.Sublist.refl _).append (sublist_cons_self bin rest))
    · rename_i next below column
      refine layered.replace ?_
      rw [column]
      exact sublist_cons_self bin.1 (next :: below)
  · exact layered.replace (erase_sublist.cons_cons bin.1)

omit [DecidableEq Ptr] in
theorem Layered.mem_remaining {bins : List (Bin Ptr)} (layered : Layered events bins)
    (listed : event ∈ members bins) :
    ∃ bin rest, remaining events event bins = bin :: rest ∧ event ∈ bin.1 :: bin.2 := by
  obtain ⟨_, member, inside⟩ := mem_flatMap.mp listed
  have key := layered.key_eq_top member inside
  rw [← passed_append_remaining events event bins] at member
  rcases mem_append.mp member with earlier | later
  · exact absurd key (ne_of_gt (passed_lt earlier))
  · cases stopped : remaining events event bins with
    | nil =>
      rw [stopped] at later
      cases later
    | cons first rest =>
      refine ⟨first, rest, rfl, ?_⟩
      rw [stopped] at later
      rcases mem_cons.mp later with rfl | further
      · exact inside
      · have ascending := layered.ascending.sublist (remaining_sublist events event bins)
        rw [stopped] at ascending
        have larger := rel_of_pairwise_cons ascending further
        rw [← key] at larger
        exact absurd (remaining_head stopped) (not_le_of_gt larger)

theorem members_takeOut_append {bins : List (Bin Ptr)} (layered : Layered events bins)
    (stopped : remaining events event bins = bin :: rest) (inside : event ∈ bin.1 :: bin.2) :
    members (passed events event bins ++ takeOut event bin rest) = (members bins).erase event := by
  have notPassed : event ∉ members (passed events event bins) := by
    intro member
    have nodup := layered.nodup
    rw [members_passed_remaining events event bins, stopped, members_cons] at nodup
    exact disjoint_of_nodup_append nodup member (mem_append_left _ inside)
  rw [members_append, members_takeOut, members_passed_remaining events event bins, stopped,
    members_cons, erase_append_right _ notPassed, erase_append_left _ inside]

/-! ### The removal of the code -/

omit [DecidableEq Ptr] in
theorem Linked.uncover [DecidableEq Ptr] (linked : Linked links (some bin.1) (bin :: rest))
    (nodup : (members (bin :: rest)).Nodup) :
    (∃ next below, bin.2 = next :: below ∧ links.nextInBin bin.1 = some next ∧
      Linked { links with nextBin := update links.nextBin next (links.nextBin bin.1) }
        (some next) (Sim.uncover bin rest)) ∨
    (links.nextInBin bin.1 = none ∧ Linked links (links.nextBin bin.1) (Sim.uncover bin rest)) := by
  have column := linked.columns bin mem_cons_self
  have later : ∀ other ∈ rest, Segment links.nextInBin (links.nextInBin other.1) other.2 none :=
    fun other listed => linked.columns other (mem_cons_of_mem _ listed)
  cases below : bin.2 with
  | nil =>
    rw [below] at column
    refine .inr ⟨column, ?_⟩
    rw [Sim.uncover, below]
    exact ⟨linked.spine.2, later⟩
  | cons next more =>
    rw [below] at column
    refine .inl ⟨next, more, rfl, column.1, ?_⟩
    have outside : next ∉ rest.map Prod.fst := by
      intro member
      obtain ⟨_, listed, same⟩ := mem_map.mp member
      rw [members_cons, below] at nodup
      exact disjoint_of_nodup_append nodup
        (mem_cons_of_mem _ mem_cons_self) (same ▸ top_mem_members listed)
    rw [Sim.uncover, below]
    refine ⟨⟨rfl, ?_⟩, fun other listed => ?_⟩
    · simp only [update_self]
      exact Segment.update linked.spine.2 outside _
    · rcases mem_cons.mp listed with rfl | further
      · exact column.2
      · exact later other further

/-- The walk down a stack ends above the event, or in the panic. -/
theorem findInBin_spec (event : Ptr) {column : List Ptr} {fuel : Nat}
    (prev : Ptr) {start : Option Ptr} (segment : Segment links.nextInBin start column none)
    (enough : column.length < fuel) :
    (event ∉ column ∧ findInBin links event fuel prev start = .error .eventNotFound) ∨
    ∃ last before after earlier, findInBin links event fuel prev start = .ok last ∧
      column = before ++ event :: after ∧ prev :: before = earlier ++ [last] := by
  induction column generalizing fuel prev start with
  | nil =>
    obtain ⟨_, rfl⟩ := Nat.exists_eq_succ_of_ne_zero (ne_of_gt enough)
    have ends : start = none := segment
    subst ends
    exact .inl ⟨not_mem_nil, rfl⟩
  | cons next below hypothesis =>
    obtain ⟨_, rfl⟩ := Nat.exists_eq_succ_of_ne_zero (ne_of_gt (Nat.zero_lt_of_lt enough))
    obtain ⟨begins, continued⟩ := segment
    subst begins
    by_cases same : event = next
    · subst same
      exact .inr ⟨prev, [], below, [], by rw [findInBin, if_pos rfl], rfl, rfl⟩
    · rw [findInBin, if_neg same]
      rcases hypothesis next continued (Nat.lt_of_succ_lt_succ enough) with
        ⟨absent, failed⟩ | ⟨last, before, after, earlier, found, column, above⟩
      · exact .inl ⟨not_mem_cons_of_ne_of_not_mem same absent, failed⟩
      · exact .inr ⟨last, next :: before, after, prev :: earlier, found,
          by rw [column, cons_append], by rw [above, cons_append]⟩

variable [Fintype Ptr]

theorem removeItem_spec (event : Ptr) (linked : Linked links (some bin.1) (bin :: rest))
    (nodup : (members (bin :: rest)).Nodup) :
    (event ∉ bin.1 :: bin.2 ∧ removeItem event bin.1 links = .error .eventNotFound) ∨
    event ∈ bin.1 :: bin.2 ∧ ∃ after top, removeItem event bin.1 links = .ok (after, top) ∧
      Linked after top (takeOut event bin rest) ∧ after.head = links.head ∧
      (∀ other, other ∉ bin.1 :: bin.2 → after.nextBin other = links.nextBin other) ∧
      ∀ other, other ∉ bin.1 :: bin.2 → after.nextInBin other = links.nextInBin other := by
  rw [members_cons] at nodup
  obtain ⟨binNodup, _, apart⟩ := nodup_append'.mp nodup
  by_cases same : event = bin.1
  · refine .inr ⟨same ▸ mem_cons_self, ?_⟩
    rw [removeItem, if_pos same, takeOut, if_pos same]
    rcases linked.uncover nodup with ⟨next, _, column, above, uncovered⟩ | ⟨alone, uncovered⟩
    · rw [above]
      refine ⟨_, _, rfl, uncovered, rfl, fun other outside => ?_, fun _ _ => rfl⟩
      have member : next ∈ bin.1 :: bin.2 := by
        rw [column]
        exact mem_cons_of_mem _ mem_cons_self
      exact update_of_ne (ne_of_mem_of_not_mem member outside).symm _ _
    · rw [alone]
      exact ⟨_, _, rfl, uncovered, rfl, fun _ _ => rfl, fun _ _ => rfl⟩
  · rw [removeItem, if_neg same, takeOut, if_neg same]
    have column := linked.columns bin mem_cons_self
    have enough : bin.2.length < walkFuel Ptr :=
      Nat.lt_succ_of_le ((List.Nodup.of_cons binNodup).length_le_card)
    rcases findInBin_spec event bin.1 column enough with
      ⟨absent, failed⟩ | ⟨last, before, after, earlier, found, split, above⟩
    · refine .inl ⟨not_mem_cons_of_ne_of_not_mem same absent, ?_⟩
      rw [failed]
      rfl
    · have inside : event ∈ bin.2 := split ▸ mem_append_right _ mem_cons_self
      refine .inr ⟨mem_cons_of_mem _ inside, ?_⟩
      rw [found]
      have lastMember : last ∈ bin.1 :: bin.2 := by
        have member : last ∈ bin.1 :: before := above ▸ mem_append_right _ (by simp)
        rw [split, ← cons_append]
        exact mem_append_left _ member
      refine ⟨_, _, rfl, ⟨⟨rfl, linked.spine.2⟩, fun other listed => ?_⟩, rfl, fun _ _ => rfl,
        fun other outside => update_of_ne (ne_of_mem_of_not_mem lastMember outside).symm _ _⟩
      rcases mem_cons.mp listed with rfl | further
      · have parted : bin.1 :: bin.2 = earlier ++ [last] ++ event :: after := by
          rw [split, ← cons_append, above]
        rw [parted] at binNodup
        obtain ⟨front, _, across⟩ := nodup_append'.mp binNodup
        have whole : Segment links.nextInBin (some bin.1) (earlier ++ [last] ++ event :: after)
            none := parted ▸ ⟨rfl, column⟩
        have unlinked := whole.unlink
          (fun member => disjoint_of_nodup_append front member (mem_singleton_self last))
          (fun member => across (mem_append_right _ (mem_singleton_self last))
            (mem_cons_of_mem _ member))
        have erased : bin.2.erase event = before ++ after := by
          have notBefore : event ∉ before := fun member =>
            across (above ▸ mem_cons_of_mem _ member) mem_cons_self
          rw [split, erase_append_right _ notBefore, erase_cons_head]
        rw [← above, cons_append, ← erased] at unlinked
        exact unlinked.2
      · have outside : last ∉ other.1 :: other.2 := fun member =>
          apart lastMember (mem_flatMap.mpr ⟨other, further, member⟩)
        simp only
        rw [update_of_ne (ne_of_not_mem_cons outside).symm]
        exact (linked.columns other (mem_cons_of_mem _ further)).update
          (not_mem_of_not_mem_cons outside) _

/-- The links of queue `this` denote the listed events. -/
def Denotes (events : Ptr → Event) (links : Links Ptr) (this : QueueId) (list : List Ptr) : Prop :=
  ∃ bins, Linked links (links.head this) bins ∧ Layered events bins ∧ members bins = list

variable (denotes : Denotes events links this list)
include denotes

theorem Links.remove_absent (here : (events event).queue = some this) (absent : event ∉ list) :
    links.remove events this event = .error .eventNotFound := by
  obtain ⟨bins, linked, layered, rfl⟩ := denotes
  have notIn {bin : Bin Ptr} (listed : bin ∈ bins) : event ∉ bin.1 :: bin.2 := fun inside =>
    absent (mem_flatMap.mpr ⟨bin, listed, inside⟩)
  cases bins with
  | nil =>
    have empty : links.head this = none := linked.spine
    rw [Links.remove, empty]
  | cons bin rest =>
    have begins : links.head this = some bin.1 := linked.spine.1
    simp only [Links.remove, begins, here, ne_eq, not_true_eq_false, if_false]
    rw [begins] at linked
    split
    · rcases removeItem_spec event linked layered.nodup with ⟨_, failed⟩ | ⟨inside, _⟩
      · rw [failed]
        rfl
      · exact absurd inside (notIn mem_cons_self)
    · obtain ⟨_, next, _, walked, _, before⟩ :=
        findBin_spec events event bin.1 linked.spine.2 (Nat.lt_of_succ_lt layered.length_lt)
      rw [walked]
      cases stopped : remaining events event rest with
      | nil =>
        rw [stopped] at before
        have ends : next = none := before
        subst ends
        rfl
      | cons stop tail =>
        rw [stopped] at before
        obtain ⟨found, continued⟩ := before
        subst found
        have part : (stop :: tail).Sublist (bin :: rest) :=
          (stopped ▸ remaining_sublist events event rest).trans (sublist_cons_self bin rest)
        have tailLinked : Linked links (some stop.1) (stop :: tail) :=
          ⟨⟨rfl, continued⟩, fun other listed => linked.columns other (part.subset listed)⟩
        simp only [bind, Except.bind]
        split
        · rfl
        · rcases removeItem_spec event tailLinked (layered.sublist part).nodup with
            ⟨_, failed⟩ | ⟨inside, _⟩
          · rw [failed]
          · exact absurd inside (notIn (part.subset mem_cons_self))

theorem Links.remove_listed (here : (events event).queue = some this) (listed : event ∈ list) :
    ∃ after, links.remove events this event = .ok after ∧
      Denotes events after this (list.erase event) ∧ Links.Frame this list links after := by
  obtain ⟨bins, linked, layered, rfl⟩ := denotes
  cases bins with
  | nil => cases listed
  | cons bin rest =>
    have begins : links.head this = some bin.1 := linked.spine.1
    rw [begins] at linked
    obtain ⟨stop, tail, stopped, inside⟩ := layered.mem_remaining listed
    have stopPart : (stop :: tail).Sublist (bin :: rest) :=
      stopped ▸ remaining_sublist events event (bin :: rest)
    have stopKey := layered.key_eq_top (stopPart.subset mem_cons_self) inside
    have erased := members_takeOut_append layered stopped inside
    have ordered : Layered events
        (passed events event (bin :: rest) ++ takeOut event stop tail) := by
      have split := passed_append_remaining events event (bin :: rest)
      rw [stopped] at split
      exact (split.symm ▸ layered).takeOut
    by_cases same : (events bin.1).eq (events event)
    · have notSmaller : ¬ (events bin.1).lt (events event) := by
        rw [Event.lt_iff, (Event.eq_iff _ _).mp same]
        exact lt_irrefl _
      have none : passed events event (bin :: rest) = [] :=
        takeWhile_cons_of_neg (by simpa using notSmaller)
      have all : remaining events event (bin :: rest) = bin :: rest :=
        dropWhile_cons_of_neg (by simpa using notSmaller)
      obtain ⟨rfl, rfl⟩ := cons.inj (all.symm.trans stopped)
      rw [none, nil_append] at erased ordered
      rcases removeItem_spec event linked layered.nodup with ⟨outside, _⟩ | ⟨_, after, top, removed,
        taken, heads, sameBin, sameInBin⟩
      · exact absurd inside outside
      · refine ⟨{ after with head := update after.head this top }, ?_,
          ⟨_, ?_, ordered, erased⟩, ⟨fun other different => ?_, fun other outside => ?_,
            fun other outside => ?_⟩⟩
        · simp only [Links.remove, begins, here, ne_eq, not_true_eq_false, if_false, if_pos same,
            removed, bind, Except.bind]
          rfl
        · simp only [update_self]
          exact ⟨taken.spine, taken.columns⟩
        · simp only [update_of_ne different, heads]
        · exact sameBin other fun member => outside (mem_append_left _ member)
        · exact sameInBin other fun member => outside (mem_append_left _ member)
    · have smaller : (events bin.1).lt (events event) := by
        rw [Event.lt_iff]
        obtain ⟨_, member, within⟩ := mem_flatMap.mp listed
        rw [layered.key_eq_top member within]
        rcases mem_cons.mp member with rfl | later
        · exact absurd ((Event.eq_iff _ _).mpr (layered.key_eq_top member within).symm) same
        · exact rel_of_pairwise_cons layered.ascending later
      obtain ⟨last, next, _, walked, behind, lastPassed, rests⟩ :=
        walk_spec linked layered smaller
      have split := passed_append_remaining events event (bin :: rest)
      have parted := members_passed_remaining events event (bin :: rest)
      have nodup := layered.nodup
      rw [parted, stopped] at nodup
      rw [stopped] at rests parted
      have found : next = some stop.1 := rests.spine.1
      subst found
      obtain ⟨passedNodup, stopNodup, apart⟩ := nodup_append'.mp nodup
      have notStop {other : Ptr} (member : other ∈ members (passed events event (bin :: rest))) :
          other ∉ stop.1 :: stop.2 := fun within => apart member (mem_append_left _ within)
      rcases removeItem_spec event rests stopNodup with ⟨outside, _⟩ | ⟨_, after, top, removed,
        taken, heads, sameBin, sameInBin⟩
      · exact absurd inside outside
      · refine ⟨{ after with nextBin := update after.nextBin last top }, ?_,
          ⟨_, ?_, ordered, erased⟩, ⟨fun other _ => congrFun heads other, fun other outside => ?_,
            fun other outside => ?_⟩⟩
        · have matching : ¬ (events stop.1).ne (events event) := by
            rw [Event.ne_iff, not_not]
            exact stopKey.symm
          simp only [Links.remove, begins, here, ne_eq, not_true_eq_false, if_false, if_neg same,
            walked, bind, Except.bind, if_neg matching, removed]
          rfl
        · have starts : after.head this = some bin.1 := by rw [heads, begins]
          simp only [starts]
          refine Linked.splice (split.symm ▸ linked) passedNodup behind
            (fun other member => sameBin other (notStop member))
            (fun other member => sameInBin other (notStop member)) taken fun member => ?_
          rw [members_takeOut] at member
          refine apart lastPassed ?_
          rcases mem_append.mp member with within | further
          · exact mem_append_left _ (mem_of_mem_erase within)
          · exact mem_append_right _ further
        · rw [parted] at outside
          obtain ⟨notPassed, notRemaining⟩ := not_or.mp (mem_append.not.mp outside)
          simp only [update_of_ne (ne_of_mem_of_not_mem lastPassed notPassed).symm]
          exact sameBin other fun within => notRemaining (mem_append_left _ within)
        · rw [parted] at outside
          exact sameInBin other fun within =>
            outside (mem_append_right _ (mem_append_left _ within))

/-! ### Insertion and unlinking on the denoted list -/

theorem Links.insert_denotes (fresh : event ∉ list) :
    ∃ after, links.insert events this event = .ok after ∧
      Denotes events after this (list.orderedInsert (keyLe events) event) ∧
      Links.Frame this (event :: list) links after := by
  obtain ⟨_, linked, layered, rfl⟩ := denotes
  obtain ⟨after, inserted, represented, frame⟩ := Links.insert_spec linked layered fresh
  exact ⟨after, inserted,
    ⟨_, represented, layered.binInsert fresh, members_binInsert layered⟩, frame⟩

omit [Fintype Ptr] in
theorem Links.pop_denotes :
    Denotes events (links.pop this) this list.tail ∧
      Links.Frame this list links (links.pop this) := by
  obtain ⟨bins, linked, layered, rfl⟩ := denotes
  cases bins with
  | nil =>
    have empty : links.head this = none := linked.spine
    rw [Links.pop, empty]
    exact ⟨⟨[], linked, layered, rfl⟩, ⟨fun _ _ => rfl, fun _ _ => rfl, fun _ _ => rfl⟩⟩
  | cons bin rest =>
    have begins : links.head this = some bin.1 := linked.spine.1
    rw [begins] at linked
    have ordered : Layered events (uncover bin rest) := by
      have taken : Layered events ([] ++ takeOut bin.1 bin rest) := Layered.takeOut layered
      rwa [takeOut, if_pos rfl] at taken
    have listed : members (uncover bin rest) = (members (bin :: rest)).tail := by
      rw [members_uncover]
      rfl
    rw [Links.pop, begins]
    rcases linked.uncover layered.nodup with ⟨next, _, column, above, uncovered⟩ | ⟨alone,
      uncovered⟩
    · simp only [above]
      refine ⟨⟨_, ?_, ordered, listed⟩, ⟨fun other different => update_of_ne different _ _,
        fun other outside => ?_, fun _ _ => rfl⟩⟩
      · simp only [update_self]
        exact ⟨uncovered.spine, uncovered.columns⟩
      · have member : next ∈ members (bin :: rest) := by
          rw [members_cons, column]
          exact mem_append_left _ (mem_cons_of_mem _ mem_cons_self)
        exact update_of_ne (ne_of_mem_of_not_mem member outside).symm _ _
    · simp only [alone]
      refine ⟨⟨_, ?_, ordered, listed⟩, ⟨fun other different => update_of_ne different _ _,
        fun _ _ => rfl, fun _ _ => rfl⟩⟩
      simp only [update_self]
      exact ⟨uncovered.spine, uncovered.columns⟩

omit [DecidableEq Ptr] [Fintype Ptr]

theorem Denotes.head_eq : links.head this = list.head? := by
  obtain ⟨bins, linked, _, rfl⟩ := denotes
  cases bins with
  | nil => exact linked.spine
  | cons => exact linked.spine.1

theorem Denotes.congr_events {other : Ptr → Event}
    (same : ∀ event ∈ list, (other event).key = (events event).key) :
    Denotes other links this list := by
  obtain ⟨bins, linked, layered, rfl⟩ := denotes
  refine ⟨bins, linked, ⟨fun bin listed event inside => ?_, ?_, layered.nodup⟩, rfl⟩
  · rw [same event (below_mem_members listed inside), same bin.1 (top_mem_members listed)]
    exact layered.level bin listed event inside
  · refine layered.ascending.imp_of_mem fun leftListed rightListed smaller => ?_
    rwa [same _ (top_mem_members leftListed), same _ (top_mem_members rightListed)]

omit denotes in
theorem Denotes.frame {after : Links Ptr} {other : QueueId} {touched : List Ptr}
    (denotes : Denotes events links other list) (frame : Links.Frame this touched links after)
    (different : other ≠ this) (untouched : ∀ event ∈ list, event ∉ touched) :
    Denotes events after other list := by
  obtain ⟨bins, linked, layered, rfl⟩ := denotes
  exact ⟨bins, frame.linked different linked untouched, layered, rfl⟩

theorem Denotes.nodup : list.Nodup := by
  obtain ⟨_, _, layered, rfl⟩ := denotes
  exact layered.nodup

end Removal

end Gem5.Sim
