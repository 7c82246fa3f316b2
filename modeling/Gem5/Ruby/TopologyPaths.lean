/-
This file proves that the relaxation of the table of shortest paths comes to an end,
and what the table then has: the weight of a walk for every pair of switches, and no
pair for which there is a shorter way by another switch.
-/

import Gem5.Ruby.Topology

namespace Gem5.Ruby.Network

open Library List

variable {weights dist : Matrix} {nodes : Nat}

/-! ### The search for an intermediate switch -/

theorem scanSwitch_intermediate (dist : Matrix) (i j : Nat) (scan : Scan) (k : Nat) :
    (scanSwitch dist i j scan k).minimum = scan.minimum ∧
        (scanSwitch dist i j scan k).intermediateSwitch = scan.intermediateSwitch ∨
      (scanSwitch dist i j scan k).minimum = addInt (dist i k) (dist k j) ∧
        (scanSwitch dist i j scan k).intermediateSwitch = some k := by
  rw [scanSwitch]
  split
  · rename_i changed
    refine .inr ⟨?_, rfl⟩
    rcases min_choice scan.minimum (addInt (dist i k) (dist k j)) with same | lower
    · exact absurd same.symm changed
    · exact lower
  · rename_i same
    exact .inl ⟨(not_not.mp same).symm, rfl⟩

/-- The search ends with the smallest sum, and with a switch that has it if it is a new one. -/
theorem scan_spec (dist : Matrix) (i j : Nat) (switches : List Nat) (scan : Scan) :
    (switches.foldl (scanSwitch dist i j) scan).minimum ≤ scan.minimum ∧
      (∀ k ∈ switches, (switches.foldl (scanSwitch dist i j) scan).minimum ≤
        addInt (dist i k) (dist k j)) ∧
      ((switches.foldl (scanSwitch dist i j) scan).minimum = scan.minimum ∧
          (switches.foldl (scanSwitch dist i j) scan).intermediateSwitch =
            scan.intermediateSwitch ∨
        ∃ k ∈ switches, (switches.foldl (scanSwitch dist i j) scan).minimum =
            addInt (dist i k) (dist k j) ∧
          (switches.foldl (scanSwitch dist i j) scan).intermediateSwitch = some k) := by
  induction switches generalizing scan with
  | nil => exact ⟨le_refl _, nofun, .inl ⟨rfl, rfl⟩⟩
  | cons k _ hypothesis =>
    rw [foldl_cons]
    have first : (scanSwitch dist i j scan k).minimum =
        min scan.minimum (addInt (dist i k) (dist k j)) := by
      rw [scanSwitch]
      split <;> rfl
    obtain ⟨below, others, found⟩ := hypothesis (scanSwitch dist i j scan k)
    refine ⟨?_, fun other member => ?_, ?_⟩
    · exact le_trans below (first.trans_le (min_le_left _ _))
    · rcases mem_cons.mp member with rfl | later
      · exact le_trans below (first.trans_le (min_le_right _ _))
      · exact others other later
    · rcases found with ⟨minimum, intermediate⟩ | ⟨other, member, equal, intermediate⟩
      · rw [minimum, intermediate]
        rcases scanSwitch_intermediate dist i j scan k with kept | found
        · exact .inl kept
        · exact .inr ⟨k, mem_cons_self, found⟩
      · exact .inr ⟨other, mem_cons_of_mem k member, equal, intermediate⟩

/-! ### One pair of switches -/

/-- The weights that the table starts with. -/
def Sound (weights : Matrix) (nodes : Nat) : Prop :=
  ∀ i j, i < nodes → j < nodes → 0 ≤ weights i j ∧ weights i j < 2 ^ 30

/-- Every entry is the weight of a walk, and at most the weight of the link. -/
structure Tabled (weights : Matrix) (nodes : Nat) (dist : Matrix) : Prop where
  walk : ∀ i j, i < nodes → j < nodes → Walk weights (· < nodes) i j (dist i j)
  below : ∀ i j, dist i j ≤ weights i j

theorem Tabled.initial (weights : Matrix) (nodes : Nat) : Tabled weights nodes weights :=
  ⟨fun _ _ left right => .edge left right, fun _ _ => le_refl _⟩

section

variable (tabled : Tabled weights nodes dist)
include tabled

theorem Tabled.nonneg (sound : Sound weights nodes) {i j : Nat}
    (left : i < nodes) (right : j < nodes) : 0 ≤ dist i j :=
  (tabled.walk i j left right).nonneg fun first second left right =>
    (sound first second left right).1

theorem Tabled.addInt_eq (sound : Sound weights nodes) {i j k : Nat} (left : i < nodes)
    (right : j < nodes) (middle : k < nodes) : addInt (dist i k) (dist k j) = dist i k + dist k j :=
  Network.addInt_eq (tabled.nonneg sound left middle)
    (lt_of_le_of_lt (tabled.below i k) (sound i k left middle).2)
    (tabled.nonneg sound middle right)
    (lt_of_le_of_lt (tabled.below k j) (sound k j middle right).2)

theorem Tabled.set {row column : Nat} {shorter : Int}
    (walk : Walk weights (· < nodes) row column shorter) (less : shorter ≤ dist row column) :
    Tabled weights nodes (dist.set row column shorter) := by
  refine ⟨fun i j left right => ?_, fun i j => ?_⟩
  · by_cases here : i = row ∧ j = column
    · obtain ⟨rfl, rfl⟩ := here
      rw [Matrix.set_self]
      exact walk
    · rw [Matrix.set_other _ _ here]
      exact tabled.walk i j left right
  · by_cases here : i = row ∧ j = column
    · obtain ⟨rfl, rfl⟩ := here
      rw [Matrix.set_self]
      exact le_trans less (tabled.below i j)
    · rw [Matrix.set_other _ _ here]
      exact tabled.below i j

end

/-- A pair is settled if no way by another switch is shorter. -/
def Settled (nodes : Nat) (dist : Matrix) (pair : Nat × Nat) : Prop :=
  ∀ k, k < nodes → dist pair.1 pair.2 ≤ dist pair.1 k + dist k pair.2

theorem relaxEntry_spec (sound : Sound weights nodes) {state : PathTable × Bool}
    (tabled : Tabled weights nodes state.1.dist) {pair : Nat × Nat} (left : pair.1 < nodes)
    (right : pair.2 < nodes) : ∃ next, relaxEntry nodes state pair = .ok next ∧
      Tabled weights nodes next.1.dist ∧
      (next.1.dist = state.1.dist ∧ next.2 = state.2 ∧ Settled nodes state.1.dist pair ∨
        next.2 = true ∧ ∃ shorter, shorter < state.1.dist pair.1 pair.2 ∧
          next.1.dist = state.1.dist.set pair.1 pair.2 shorter) := by
  obtain ⟨below, others, found⟩ := scan_spec state.1.dist pair.1 pair.2 (range nodes)
    ⟨state.1.dist pair.1 pair.2, none, state.1.interSwitches⟩
  rw [relaxEntry]
  generalize (range nodes).foldl (scanSwitch state.1.dist pair.1 pair.2)
    ⟨state.1.dist pair.1 pair.2, none, state.1.interSwitches⟩ = scan at below others found ⊢
  by_cases same : state.1.dist pair.1 pair.2 = scan.minimum
  · rw [if_neg (not_not.mpr same)]
    refine ⟨_, rfl, tabled, .inl ⟨rfl, rfl, fun k inside => ?_⟩⟩
    rw [← tabled.addInt_eq sound left right inside, same]
    exact others k (mem_range.mpr inside)
  · rcases found with ⟨minimum, _⟩ | ⟨_, member, minimum, intermediate⟩
    · exact absurd minimum.symm same
    · have inside := mem_range.mp member
      rw [if_pos same, intermediate]
      dsimp only
      rw [if_pos inside]
      have shorter : scan.minimum < state.1.dist pair.1 pair.2 :=
        lt_of_le_of_ne below (Ne.symm same)
      refine ⟨_, rfl, tabled.set ?_ shorter.le, .inr ⟨rfl, scan.minimum, shorter, rfl⟩⟩
      rw [minimum, tabled.addInt_eq sound left right inside]
      exact .join (tabled.walk _ _ left inside) (tabled.walk _ _ inside right)

/-! ### One round and the whole loop -/

/-- The sum of all distances. -/
def totalDistance (nodes : Nat) (dist : Matrix) : Int :=
  ∑ pair ∈ Finset.range nodes ×ˢ Finset.range nodes, dist pair.1 pair.2

theorem totalDistance_set_lt {pair : Nat × Nat} (left : pair.1 < nodes) (right : pair.2 < nodes)
    {shorter : Int} (less : shorter < dist pair.1 pair.2) :
    totalDistance nodes (dist.set pair.1 pair.2 shorter) < totalDistance nodes dist := by
  refine Finset.sum_lt_sum (fun other _ => ?_) ⟨pair, ?_, ?_⟩
  · by_cases here : other.1 = pair.1 ∧ other.2 = pair.2
    · rw [here.1, here.2, Matrix.set_self]
      exact less.le
    · rw [Matrix.set_other _ _ here]
  · exact Finset.mem_product.mpr ⟨Finset.mem_range.mpr left, Finset.mem_range.mpr right⟩
  · rw [Matrix.set_self]
    exact less

theorem round_spec (sound : Sound weights nodes) (entries : List (Nat × Nat))
    (inside : ∀ pair ∈ entries, pair.1 < nodes ∧ pair.2 < nodes) (state : PathTable × Bool)
    (tabled : Tabled weights nodes state.1.dist) :
    ∃ next, entries.foldlM (relaxEntry nodes) state = .ok next ∧
      Tabled weights nodes next.1.dist ∧
      (next.1.dist = state.1.dist ∧ next.2 = state.2 ∧
          (∀ pair ∈ entries, Settled nodes state.1.dist pair) ∨
        next.2 = true ∧ totalDistance nodes next.1.dist < totalDistance nodes state.1.dist) := by
  induction entries generalizing state with
  | nil => exact ⟨state, rfl, tabled, .inl ⟨rfl, rfl, nofun⟩⟩
  | cons pair _ hypothesis =>
    obtain ⟨left, right⟩ := inside pair mem_cons_self
    obtain ⟨middle, taken, between, change⟩ := relaxEntry_spec sound tabled left right
    obtain ⟨next, continued, later, changes⟩ := hypothesis
      (fun other member => inside other (mem_cons_of_mem pair member)) middle between
    rw [foldlM_cons, taken]
    refine ⟨next, continued, later, ?_⟩
    rcases change with ⟨same, flag, settled⟩ | ⟨flag, _, less, lowered⟩
    · rw [same, flag] at changes
      rcases changes with ⟨still, flagged, others⟩ | lower
      · refine .inl ⟨still, flagged, fun other member => ?_⟩
        rcases mem_cons.mp member with rfl | later
        · exact settled
        · exact others other later
      · exact .inr lower
    · have down : totalDistance nodes middle.1.dist < totalDistance nodes state.1.dist :=
        lowered ▸ totalDistance_set_lt left right less
      rcases changes with ⟨still, flagged, _⟩ | ⟨flagged, lower⟩
      · exact .inr ⟨flagged.trans flag, still ▸ down⟩
      · exact .inr ⟨flagged, lt_trans lower down⟩

theorem mem_pairs {pair : Nat × Nat} : pair ∈ pairs nodes ↔ pair.1 < nodes ∧ pair.2 < nodes := by
  obtain ⟨i, j⟩ := pair
  simp [pairs]

theorem Tabled.totalDistance_nonneg (tabled : Tabled weights nodes dist)
    (sound : Sound weights nodes) : 0 ≤ totalDistance nodes dist := by
  refine Finset.sum_nonneg fun pair member => ?_
  obtain ⟨left, right⟩ := Finset.mem_product.mp member
  exact tabled.nonneg sound (Finset.mem_range.mp left) (Finset.mem_range.mp right)

theorem extend_shortest_path_spec (sound : Sound weights nodes) (table : PathTable)
    (tabled : Tabled weights nodes table.dist) : ∃ final enough,
      (∀ fuel, enough ≤ fuel → extend_shortest_path nodes fuel table = .ok final) ∧
      Tabled weights nodes final.dist ∧ ∀ pair ∈ pairs nodes, Settled nodes final.dist pair := by
  generalize measure : (totalDistance nodes table.dist).toNat = size
  induction size using Nat.strong_induction_on generalizing table with
  | _ size hypothesis =>
    obtain ⟨next, taken, later, change⟩ := round_spec sound (pairs nodes)
      (fun pair member => mem_pairs.mp member) (table, false) tabled
    have round : ∀ fuel, extend_shortest_path nodes (fuel + 1) table =
        if next.2 then extend_shortest_path nodes fuel next.1 else .ok next.1 := by
      intro fuel
      rw [extend_shortest_path, taken]
      rfl
    rcases change with ⟨same, flag, settled⟩ | ⟨flag, lower⟩
    · refine ⟨next.1, 1, fun fuel many => ?_, later, same.symm ▸ settled⟩
      obtain ⟨_, rfl⟩ := Nat.exists_eq_add_of_le' many
      rw [round, flag]
      rfl
    · have nonneg := later.totalDistance_nonneg sound
      have less : (totalDistance nodes next.1.dist).toNat < size := by
        have down : totalDistance nodes next.1.dist < totalDistance nodes table.dist := lower
        omega
      obtain ⟨final, enough, ends, result⟩ := hypothesis _ less next.1 later rfl
      refine ⟨final, enough + 1, fun fuel many => ?_, result⟩
      obtain ⟨fewer, rfl⟩ := Nat.exists_eq_add_of_le' (le_trans (Nat.le_add_left 1 enough) many)
      rw [round, flag]
      exact ends fewer (by omega)

/-- The loop ends, and the distance of two switches is the least weight of a walk between them. -/
theorem shortest_path_least (sound : Sound weights nodes) (latencies interSwitches : Matrix) :
    ∃ final enough, (∀ fuel, enough ≤ fuel →
        shortest_path nodes fuel weights latencies interSwitches = .ok final) ∧
      ∀ i j, i < nodes → j < nodes → Walk weights (· < nodes) i j (final.dist i j) ∧
        ∀ total, Walk weights (· < nodes) i j total → final.dist i j ≤ total := by
  obtain ⟨final, enough, ends, tabled, settled⟩ := extend_shortest_path_spec sound
    ⟨weights, latencies, interSwitches⟩ (.initial weights nodes)
  refine ⟨final, enough, ends, fun i j left right => ⟨tabled.walk i j left right, ?_⟩⟩
  intro total walk
  clear left right
  induction walk with
  | edge _ _ => exact tabled.below _ _
  | @join first middle second _ _ front back shorter rest =>
    have relaxed := settled (first, second) (mem_pairs.mpr ⟨front.ends.1, back.ends.2⟩) middle
      front.ends.2
    exact relaxed.trans (Int.add_le_add shorter rest)

/-- Three switches, with a slow link between the outer ones. -/
def triangle : Matrix := fun i j => if i + j = 2 then 9 else 2

theorem shortest_path_least_triangle : ∃ final enough,
    shortest_path 3 enough triangle (fun _ _ => 1) (fun _ _ => 0) = .ok final ∧
      final.dist 0 2 ≤ 4 := by
  have sound : Sound triangle 3 := by
    intro i j _ _
    rw [triangle]
    split <;> decide
  obtain ⟨final, enough, ends, least⟩ := shortest_path_least sound (fun _ _ => 1) (fun _ _ => 0)
  have walk : Walk triangle (· < 3) 0 2 4 :=
    .join (@Walk.edge _ triangle (· < 3) 0 1 (by decide) (by decide))
      (@Walk.edge _ triangle (· < 3) 1 2 (by decide) (by decide))
  exact ⟨final, enough, ends enough le_rfl, (least 0 2 (by decide) (by decide)).2 4 walk⟩

end Gem5.Ruby.Network
