/-
This file models the second stage of the switch allocator of a Garnet router
(`mem/ruby/network/garnet/fixed-pipeline/SWallocator_d.cc`). An output port
looks for a request from one past its round robin pointer on, over the input
ports; the pointer goes on by one in every allocation, over the output ports.
Every input port comes first in its turn if there are not more of them than output
ports. A router has as many of both, because the topology adds each link in both
directions and only the links of the network add ports (`GarnetNetwork_d.cc`).
-/

import Gem5.Ruby.TopologyRouting

namespace Gem5.Ruby.Garnet

open Library List Function Network

/-! ### The allocator -/

/-- The output ports that the winners of the first stage ask for, at most one for each input port:
`m_port_req`, which is cleared after every allocation. -/
abbrev Requests := Nat → Option Nat

/-- The round robin pointers of the output ports. -/
structure SWallocator (numInports numOutports : Nat) where
  roundRobinOutport : Nat → Nat

namespace SWallocator

variable {numInports numOutports : Nat}

def create : SWallocator numInports numOutports := ⟨fun _ => 0⟩

/-- `++value`, and zero from the bound on. -/
def increment (bound value : Nat) : Nat := if bound ≤ value + 1 then 0 else value + 1

/-- The loop over the input ports, from one past a port on. -/
def search (numInports : Nat) (requests : Requests) (outport : Nat) : Nat → Nat → Option Nat
  | 0, _ => none
  | iterations + 1, inport =>
    if requests (increment numInports inport) = some outport then
      some (increment numInports inport)
    else search numInports requests outport iterations (increment numInports inport)

/-- The input ports that the output ports are granted to, and the pointers after it. -/
def arbitrateOutports (allocator : SWallocator numInports numOutports) (requests : Requests) :
    (Nat → Option Nat) × SWallocator numInports numOutports :=
  (fun outport =>
    search numInports requests outport numInports (allocator.roundRobinOutport outport),
    ⟨fun outport => increment numOutports (allocator.roundRobinOutport outport)⟩)

def after (numInports numOutports : Nat) (allocations : List Requests) :
    SWallocator numInports numOutports :=
  allocations.foldl (fun allocator requests => (allocator.arbitrateOutports requests).2) create

/-! ### Fairness -/

/-- A port that asks for an output port in as many allocations in a row as there are ports on the
larger side is granted it in one of them. -/
def Fair (numInports numOutports : Nat) : Prop :=
  ∀ (past window : List Requests) (inport outport : Nat), inport < numInports →
    outport < numOutports → window.length = max numInports numOutports →
    (∀ requests ∈ window, requests inport = some outport) →
    ∃ before requests rest, window = before ++ requests :: rest ∧
      ((after numInports numOutports (past ++ before)).arbitrateOutports requests).1 outport =
        some inport

theorem after_pointer (nonempty : 0 < numOutports) (allocations : List Requests) (outport : Nat) :
    (after numInports numOutports allocations).roundRobinOutport outport =
      allocations.length % numOutports := by
  induction allocations using reverseRecOn with
  | nil => exact (Nat.zero_mod _).symm
  | append_singleton allocations _ hypothesis =>
    have less := Nat.mod_lt allocations.length nonempty
    rw [after, foldl_append, length_append, length_singleton, ← Nat.mod_add_mod]
    show increment _ ((after numInports numOutports allocations).roundRobinOutport outport) = _
    rw [hypothesis, increment]
    split
    · rename_i last
      rw [le_antisymm less last, Nat.mod_self]
    · rename_i more
      exact (Nat.mod_eq_of_lt (not_le.mp more)).symm

theorem arbitrateOutports_first (ports : 0 < numInports) (nonempty : 0 < numOutports)
    {past : List Requests} {requests : Requests} {inport outport : Nat}
    (first : increment numInports (past.length % numOutports) = inport)
    (asks : requests inport = some outport) :
    ((after numInports numOutports past).arbitrateOutports requests).1 outport = some inport := by
  rw [← @after_pointer numInports _ nonempty past outport] at first
  subst first
  obtain ⟨_, rfl⟩ := Nat.exists_eq_succ_of_ne_zero ports.ne'
  exact if_pos asks

/-- An input port comes first with one of the pointers. -/
theorem fair_of_le (enough : numInports ≤ numOutports) : Fair numInports numOutports := by
  intro past window inport outport inside outside length asks
  obtain ⟨pointer, small, first⟩ :
      ∃ pointer < numInports, increment numInports pointer = inport := by
    cases inport with
    | zero => exact ⟨numInports - 1, by omega, if_pos (by omega)⟩
    | succ inport => exact ⟨inport, by omega, if_neg (by omega)⟩
  obtain ⟨others, rfl⟩ := Nat.exists_eq_succ_of_ne_zero (Nat.ne_zero_of_lt outside)
  obtain ⟨turn, bound, now⟩ :
      ∃ turn < window.length, (past.length + turn) % (others + 1) = pointer := by
    refine ⟨(pointer + others * past.length) % (others + 1), ?_, ?_⟩
    · rw [length, max_eq_right enough]
      exact Nat.mod_lt _ (Nat.succ_pos others)
    · rw [Nat.add_mod_mod, show past.length + (pointer + others * past.length) =
        pointer + (others + 1) * past.length by ring, Nat.add_mul_mod_self_left]
      exact Nat.mod_eq_of_lt (by omega)
  refine ⟨window.take turn, window[turn], _, (by rw [getElem_cons_drop, take_append_drop]),
    arbitrateOutports_first (by omega) (by omega) ?_ (asks _ (getElem_mem bound))⟩
  rw [length_append, length_take, min_eq_left bound.le, now, first]

end SWallocator

/-! ### The ports of a router -/

/-- The router that `makeInLink` or `makeInternalLink` adds an input port to. -/
def addsInPort : LinkKind → Option Nat
  | .inLink _ router | .internalLink _ router => some router
  | .outLink _ _ => none

/-- The router that `makeOutLink` or `makeInternalLink` adds an output port to. -/
def addsOutPort : LinkKind → Option Nat
  | .outLink router _ | .internalLink router _ => some router
  | .inLink _ _ => none

def numInports (links : List NetLink) (router : Nat) : Nat :=
  links.countP fun link => addsInPort link.kind = some router

def numOutports (links : List NetLink) (router : Nat) : Nat :=
  links.countP fun link => addsOutPort link.kind = some router

/-- The way back: from a router to the node's way out, from a router to the node's way in, or
between the same routers. -/
def wayBack (nodes : Nat) (pair : Nat × Nat) : Nat × Nat :=
  if pair.1 < nodes then (pair.2, pair.1 + nodes)
  else if pair.2 < 2 * nodes then (pair.2 - nodes, pair.1)
  else (pair.2, pair.1)

theorem wayBack_wayBack {nodes : Nat} {pair : Nat × Nat}
    (shape : LinkShape nodes pair.1 pair.2) : wayBack nodes (wayBack nodes pair) = pair := by
  obtain ⟨first, second⟩ := pair
  obtain ⟨_, _, _⟩ := shape
  simp only [wayBack]
  split_ifs <;> simp_all <;> omega

/-- Every link has a way back, which is the same link. -/
def Paired (nodes : Nat) (linkMap : LinkMap) : Prop :=
  ∀ pair : Nat × Nat, LinkShape nodes pair.1 pair.2 →
    (linkMap.lookup (wayBack nodes pair)).map LinkEntry.link =
      (linkMap.lookup pair).map LinkEntry.link

theorem Paired.insert {nodes : Nat} {linkMap : LinkMap} (paired : Paired nodes linkMap)
    {pair : Nat × Nat} (shape : LinkShape nodes pair.1 pair.2) (link : BasicLink) :
    Paired nodes ((linkMap.insert pair ⟨link, .In⟩).insert (wayBack nodes pair) ⟨link, .Out⟩) := by
  have looked (other : Nat × Nat) :
      (((linkMap.insert pair ⟨link, .In⟩).insert (wayBack nodes pair) ⟨link, .Out⟩).lookup
        other).map LinkEntry.link = if other = pair ∨ other = wayBack nodes pair then some link
          else (linkMap.lookup other).map LinkEntry.link := by
    by_cases back : other = wayBack nodes pair
    · rw [back, AList.lookup_insert, if_pos (.inr rfl), Option.map_some]
    · rw [AList.lookup_insert_ne back]
      by_cases here : other = pair
      · rw [here, AList.lookup_insert, if_pos (.inl rfl), Option.map_some]
      · rw [AList.lookup_insert_ne here, if_neg (not_or.mpr ⟨here, back⟩)]
  intro other otherShape
  have there : wayBack nodes other = pair ↔ other = wayBack nodes pair :=
    ⟨fun same => same ▸ (wayBack_wayBack otherShape).symm,
      fun same => same ▸ wayBack_wayBack shape⟩
  have same : wayBack nodes other = wayBack nodes pair ↔ other = pair :=
    ⟨fun same => by rw [← wayBack_wayBack otherShape, same, wayBack_wayBack shape],
      congrArg _⟩
  rw [looked, looked]
  exact if_congr ((or_congr there same).trans or_comm) rfl (paired other otherShape)

section Ports

variable {counts : List Nat} {numRouters : Nat} {topology next : Topology}

def BothWays (counts : List Nat) (topology : Topology) : Prop :=
  topology.counts = counts ∧ Paired counts.sum topology.linkMap

theorem BothWays.addLinks (bothWays : BothWays counts topology) {src dest back last : Nat}
    {link : BasicLink} (shape : LinkShape counts.sum src dest)
    (isBack : wayBack counts.sum (src, dest) = (back, last))
    (taken : (topology.addLink src dest link .In >>= fun topology =>
      topology.addLink back last link .Out) = .ok next) : BothWays counts next := by
  obtain ⟨_, first, second⟩ := bind_eq_ok taken
  obtain ⟨-, first⟩ := then_eq_ok first
  cases first
  obtain ⟨-, second⟩ := then_eq_ok second
  cases second
  refine ⟨bothWays.1, ?_⟩
  rw [← isBack]
  exact bothWays.2.insert shape link

section

variable {extLinks : List (BasicExtLink counts numRouters)}
  {intLinks : List (BasicIntLink numRouters)}
  (made : Topology.make counts numRouters extLinks intLinks = .ok topology)
include made

theorem make_bothWays : BothWays counts topology := by
  rw [Topology.make] at made
  obtain ⟨-, made⟩ := then_eq_ok made
  obtain ⟨-, made⟩ := then_eq_ok made
  obtain ⟨_, first, second⟩ := bind_eq_ok made
  have between := foldlM_invariant (BothWays counts)
    (fun _ external _ _ bothWays taken => by
      have inside := Topology.index_lt external.known
      rw [MachineID.index] at inside
      rw [Topology.addExtLink] at taken
      exact bothWays.addLinks ⟨.inl inside, by omega, .inr (by omega)⟩ (if_pos inside) taken)
    ⟨rfl, fun _ _ => rfl⟩ first
  refine foldlM_invariant (BothWays counts) (fun _ internal _ _ bothWays taken => ?_) between
    second
  rw [Topology.addIntLink, Topology.nodes, bothWays.1] at taken
  refine bothWays.addLinks ?_ ?_ taken
  · exact ⟨.inr (by omega), by omega, .inl (by omega)⟩
  · rw [wayBack, if_neg (by dsimp only; omega), if_neg (by dsimp only; omega)]

/-- The pairs of switches that a link is made for. -/
def linkedPairs (topology : Topology) : List (Nat × Nat) :=
  (pairs topology.numSwitches).filter fun pair =>
    0 < topology.weights pair.1 pair.2 ∧ topology.weights pair.1 pair.2 ≠ INFINITE_LATENCY

theorem wayBack_mem {pair : Nat × Nat} (member : pair ∈ linkedPairs topology) :
    LinkShape counts.sum pair.1 pair.2 ∧ wayBack counts.sum pair ∈ linkedPairs topology := by
  have built : topology.Built counts fun _ => True :=
    Topology.make_built made (fun _ _ => trivial) fun _ _ => trivial
  rw [linkedPairs, mem_filter, decide_eq_true_eq, mem_pairs] at member ⊢
  obtain ⟨_, positive, near⟩ := member
  rcases Topology.linked_of_weights near with ⟨_, zero⟩ | ⟨entry, found, weighs⟩
  · exact absurd zero positive.ne'
  · have shape := (built.links _ _ entry found).1
    have back := (make_bothWays made).2 pair shape
    rw [found] at back
    obtain ⟨entryBack, foundBack, same⟩ := Option.map_eq_some_iff.mp back
    have linked : topology.Linked (wayBack counts.sum pair).1 (wayBack counts.sum pair).2
        (topology.weights pair.1 pair.2) := ⟨entryBack, foundBack, by rw [weighs, same]⟩
    rw [linked.weight_eq]
    exact ⟨shape, linked.lt, positive, near⟩

/-- The way back is a permutation of the pairs. -/
theorem perm_wayBack : ((linkedPairs topology).map (wayBack counts.sum)).Perm
    (linkedPairs topology) := by
  have back : ∀ pair ∈ linkedPairs topology, wayBack counts.sum (wayBack counts.sum pair) = pair :=
    fun pair member => wayBack_wayBack (wayBack_mem made member).1
  have nodup : (linkedPairs topology).Nodup := (nodup_range.product nodup_range).filter _
  refine (perm_ext_iff_of_nodup (nodup.map_on fun first left second right same => ?_)
    nodup).mpr fun pair => ⟨fun member => ?_, fun member => ?_⟩
  · rw [← back first left, same, back second right]
  · obtain ⟨other, inside, rfl⟩ := mem_map.mp member
    exact (wayBack_mem made inside).2
  · exact mem_map.mpr ⟨_, (wayBack_mem made member).2, back pair member⟩

theorem linkKind_ports {first second : Nat} {kind : LinkKind} (router : Nat)
    (taken : topology.linkKind first second = .ok kind) :
    (addsInPort kind = some router ↔ second = router + 2 * counts.sum) ∧
      (addsOutPort kind = some router ↔ first = router + 2 * counts.sum) := by
  have same := (make_bothWays made).1
  rw [Topology.linkKind, Topology.nodes, same] at taken
  split_ifs at taken <;> cases taken <;> simp [addsInPort, addsOutPort] <;> omega

theorem numInports_eq_numOutports {fuel : Nat} {links : List NetLink}
    (created : topology.createLinks fuel = .ok links) (router : Nat) :
    numInports links router = numOutports links router := by
  obtain ⟨table, _, taken⟩ := bind_eq_ok created
  have kinds (pair : Nat × Nat) (link : NetLink)
      (linked : (shortest_path_to_node topology.counts pair.1 pair.2 topology.weights table.dist >>=
        topology.makeLink pair.1 pair.2) = .ok link) :
      topology.linkKind pair.1 pair.2 = .ok link.kind := by
    obtain ⟨_, _, linked⟩ := bind_eq_ok linked
    obtain ⟨kind, isKind, linked⟩ := bind_eq_ok linked
    split at linked
    · cases linked
      exact isKind
    · cases linked
  have inports : numInports links router =
      (linkedPairs topology).countP fun pair => pair.2 = router + 2 * counts.sum :=
    countP_of_mapM taken _ _ fun pair link linked =>
      decide_eq_decide.mpr (linkKind_ports made router (kinds pair link linked)).1
  have outports : numOutports links router =
      (linkedPairs topology).countP fun pair => pair.1 = router + 2 * counts.sum :=
    countP_of_mapM taken _ _ fun pair link linked =>
      decide_eq_decide.mpr (linkKind_ports made router (kinds pair link linked)).2
  rw [inports, outports, ← (perm_wayBack made).countP_eq, countP_map]
  refine countP_congr fun pair member => ?_
  obtain ⟨⟨_, _, _⟩, _⟩ := wayBack_mem made member
  rw [comp_apply, decide_eq_true_eq, decide_eq_true_eq, wayBack]
  split_ifs <;> dsimp only <;> omega

end

end Ports

/-- An input port of a router that keeps asking for an output port is served in time. -/
theorem switch_allocation_fair {counts : List Nat} {numRouters : Nat}
    {extLinks : List (BasicExtLink counts numRouters)} {intLinks : List (BasicIntLink numRouters)}
    {topology : Topology} (made : Topology.make counts numRouters extLinks intLinks = .ok topology)
    {fuel : Nat} {links : List NetLink} (created : topology.createLinks fuel = .ok links)
    (router : Nat) : SWallocator.Fair (numInports links router) (numOutports links router) :=
  SWallocator.fair_of_le (numInports_eq_numOutports made created router).le

theorem switch_allocation_fair_star : ∃ topology links,
    Topology.make [2] 1 (Topology.star 1) [] = .ok topology ∧
      topology.createLinks 3 = .ok links ∧ numInports links 0 = 2 ∧ numOutports links 0 = 2 ∧
      SWallocator.Fair 2 2 := by
  obtain ⟨topology, made, checked⟩ : ∃ topology,
      Topology.make [2] 1 (Topology.star 1) [] = .ok topology ∧
      (topology.createLinks 3).toOption.any (fun links =>
        numInports links 0 = 2 ∧ numOutports links 0 = 2) = true :=
    exists_of_check (by decide +kernel)
  obtain ⟨links, created, counted⟩ := exists_of_check checked
  obtain ⟨ins, outs⟩ := of_decide_eq_true counted
  have fair := switch_allocation_fair made created 0
  rw [ins, outs] at fair
  exact ⟨topology, links, made, created, ins, outs, fair⟩

end Gem5.Ruby.Garnet
