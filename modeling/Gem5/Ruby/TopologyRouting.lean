/-
This file proves that the links of a Ruby network deliver: a message that follows
links whose sets of destinations have its machine comes to no switch twice and takes
a shortest way, and it finds such a link wherever it is, as long as the machine is
nearer than the weight that stands for no link at all. That only the routers are
that near to one another is not enough. The sets have the numbers below 32 only.
-/

import Gem5.Ruby.TopologyPaths

namespace Gem5.Ruby.Network

open Library List

/-! ### The numbers of the machines -/

def MachineID.Known (counts : List Nat) (machine : MachineID) : Prop :=
  machine.num < counts[machine.type]?.getD 0
deriving Decidable

/-- The number of a machine among all of them. -/
def MachineID.index (counts : List Nat) (machine : MachineID) : Nat :=
  MachineType_base_number counts machine.type + machine.num

theorem machines_nodup (counts : List Nat) : (machines counts).Nodup := by
  refine nodup_flatMap.mpr ⟨fun type _ => ?_, ?_⟩
  · exact nodup_range.map fun first second same => (MachineID.mk.inj same).2
  · refine nodup_range.imp fun apart => ?_
    intro machine left right
    obtain ⟨_, _, rfl⟩ := mem_map.mp left
    obtain ⟨_, _, same⟩ := mem_map.mp right
    exact apart (MachineID.mk.inj same).1.symm

theorem length_before (counts : List Nat) {type : Nat} (inside : type ≤ counts.length) :
    ((range type).flatMap fun type =>
      (range (counts[type]?.getD 0)).map (MachineID.mk type)).length =
      MachineType_base_number counts type := by
  induction type with
  | zero => rfl
  | succ type hypothesis =>
    have present : counts[type]? = some counts[type] := getElem?_eq_getElem inside
    rw [range_succ, flatMap_append, length_append, hypothesis (Nat.le_of_succ_le inside),
      MachineType_base_number, MachineType_base_number, take_add_one, present, sum_append]
    simp [present]

theorem getElem?_machines {counts : List Nat} {machine : MachineID} (known : machine.Known counts) :
    (machines counts)[machine.index counts]? = some machine := by
  obtain ⟨type, num⟩ := machine
  have inside : type < counts.length := by
    by_contra outside
    rw [MachineID.Known, getElem?_eq_none (Nat.le_of_not_lt outside)] at known
    exact absurd known (Nat.not_lt_zero num)
  have length := length_before counts inside.le
  have split : machines counts = ((range type).flatMap fun type =>
      (range (counts[type]?.getD 0)).map (MachineID.mk type)) ++
      ((range (counts.length - type)).flatMap fun later =>
        (range (counts[type + later]?.getD 0)).map (MachineID.mk (type + later))) := by
    conv_lhs => rw [machines, ← Nat.add_sub_cancel' inside.le, range_add]
    rw [flatMap_append, flatMap_map]
  obtain ⟨rest, _⟩ := Nat.exists_eq_add_of_lt inside
  have last : num < counts[type]?.getD 0 := known
  rw [split, MachineID.index, getElem?_append_right (by rw [length]; exact Nat.le_add_right ..),
    length, Nat.add_sub_cancel_left, show counts.length - type = rest + 1 by omega,
    range_succ_eq_map, flatMap_cons, getElem?_append_left (by simpa using last)]
  simp [getElem?_range last]

/-! ### The sets of destinations -/

/-- The sets of the types have the numbers of some machines. -/
def NetDest.Holds (counts : List Nat) (netDest : NetDest) (members : MachineID → Prop) : Prop :=
  ∀ type count, counts[type]? = some count → ∃ set, netDest[type]? = some set ∧
    ∃ subset : Finset (Fin count), set.Represents subset ∧
      ∀ num : Fin count, num ∈ subset ↔ members ⟨type, num⟩

theorem MachineID.Known.exists {counts : List Nat} {machine : MachineID}
    (known : machine.Known counts) :
    ∃ count, counts[machine.type]? = some count ∧ machine.num < count := by
  rw [MachineID.Known] at known
  cases found : counts[machine.type]? with
  | none =>
    rw [found] at known
    exact absurd known (Nat.not_lt_zero _)
  | some count =>
    rw [found] at known
    exact ⟨count, rfl, known⟩

namespace NetDest

variable {counts : List Nat} {netDest : NetDest} {members : MachineID → Prop}
  {machine : MachineID}

theorem Holds.create (counts : List Nat) : Holds counts (.create counts) fun _ => False := by
  intro type count found
  refine ⟨.ofSize count, ?_, ∅, .ofSize count, fun num => by simp⟩
  rw [NetDest.create, getElem?_map, found, Option.map_some]

section

variable (holds : Holds counts netDest members) (small : ∀ count ∈ counts, count ≤ 32)
  (known : machine.Known counts)
include holds small known

theorem Holds.add : ∃ next, netDest.add machine = .ok next ∧
    Holds counts next fun other => other = machine ∨ members other := by
  obtain ⟨type, num⟩ := machine
  obtain ⟨count, found, inside⟩ := known.exists
  dsimp only at found inside
  have fits := small count (mem_of_getElem? found)
  obtain ⟨bits, present, subset, represents, same⟩ := holds type count found
  obtain ⟨added, taken, changed⟩ := represents.modifyWord fits ⟨num, inside⟩
    fun _ encodes => encodes.or (.bitOf fits ⟨num, inside⟩)
  refine ⟨netDest.set type added, ?_, fun other size there => ?_⟩
  · simp [NetDest.add, present, represents.sizes, inside, Common.Set.add, taken]
  · by_cases here : other = type
    · subst here
      cases found.symm.trans there
      have bound := (List.getElem?_eq_some_iff.mp present).1
      refine ⟨added, getElem?_set_self bound, _, changed, fun place => ?_⟩
      simp [same, Fin.ext_iff]
    · obtain ⟨old, kept, others, unchanged, equal⟩ := holds other size there
      refine ⟨old, (getElem?_set_ne (Ne.symm here)).trans kept, others, unchanged, fun place => ?_⟩
      simp [equal, here]

theorem Holds.isElement_iff : netDest.isElement machine = some true ↔ members machine := by
  obtain ⟨count, found, inside⟩ := known.exists
  obtain ⟨bits, present, subset, represents, same⟩ := holds machine.type count found
  have answer := represents.isElement (small count (mem_of_getElem? found)) ⟨_, inside⟩
  rw [NetDest.isElement, present, Option.bind_some, answer, Except.toOption, Option.some_inj,
    decide_eq_true_iff, same]

end

theorem Holds.foldlM (small : ∀ count ∈ counts, count ≤ 32) (test : Nat → Bool)
    {list : List (MachineID × Nat)} (known : ∀ pair ∈ list, pair.1.Known counts)
    (holds : Holds counts netDest members) :
    ∃ dest, list.foldlM (fun (result : NetDest) pair =>
        if test pair.2 then result.add pair.1 else .ok result) netDest = .ok dest ∧
      Holds counts dest fun machine =>
        (∃ index, (machine, index) ∈ list ∧ test index = true) ∨ members machine := by
  induction list generalizing netDest members with
  | nil => exact ⟨netDest, rfl, by simpa using holds⟩
  | cons pair rest hypothesis =>
    obtain ⟨first, others⟩ := forall_mem_cons.mp known
    obtain ⟨machine, index⟩ := pair
    rw [foldlM_cons]
    cases passes : test index with
    | true =>
      obtain ⟨middle, taken, kept⟩ := holds.add small first
      obtain ⟨dest, continued, finally_⟩ := hypothesis others kept
      refine ⟨dest, by rw [if_pos rfl, taken]; exact continued, ?_⟩
      refine (congrArg (Holds counts dest) (funext fun other => propext ?_)).mp finally_
      grind
    | false =>
      obtain ⟨dest, continued, finally_⟩ := hypothesis others holds
      refine ⟨dest, continued, ?_⟩
      refine (congrArg (Holds counts dest) (funext fun other => propext ?_)).mp finally_
      grind

end NetDest

theorem shortest_path_to_node_ok {counts : List Nat} (small : ∀ count ∈ counts, count ≤ 32)
    (src next : Nat) (weights dist : Matrix) :
    ∃ dest, shortest_path_to_node counts src next weights dist = .ok dest ∧
      ∀ machine : MachineID, machine.Known counts → (dest.isElement machine = some true ↔
        addInt (weights src next) (dist next (machine.index counts + counts.sum)) =
          dist src (machine.index counts + counts.sum)) := by
  have all : ∀ pair ∈ (machines counts).zipIdx, pair.1.Known counts := by
    intro pair member
    obtain ⟨_, _, inside⟩ := mem_flatMap.mp (fst_mem_of_mem_zipIdx member)
    obtain ⟨num, below, same⟩ := mem_map.mp inside
    rw [← same]
    exact mem_range.mp below
  obtain ⟨dest, taken, holds⟩ := (NetDest.Holds.create counts).foldlM small
    (fun index => link_is_shortest_path_to_node src next (index + counts.sum) weights dist) all
  refine ⟨dest, taken, fun machine known => (holds.isElement_iff small known).trans ?_⟩
  have place := getElem?_machines known
  rw [or_false]
  constructor
  · rintro ⟨index, member, shortest⟩
    have found := mem_zipIdx_iff_getElem?.mp member
    have bound := (List.getElem?_eq_some_iff.mp found).1
    rw [← (getElem?_inj bound (machines_nodup counts)).mp (found.trans place.symm)]
    exact eq_of_beq shortest
  · exact fun shortest =>
      ⟨_, mem_zipIdx_iff_getElem?.mpr place, beq_iff_eq.mpr shortest⟩

/-! ### The link map -/

/-- Where a link of the map may lead: from a node to a router, from a router to a node, or between
routers. -/
def LinkShape (nodes first second : Nat) : Prop :=
  (first < nodes ∨ 2 * nodes ≤ first) ∧ nodes ≤ second ∧
    (2 * nodes ≤ first ∨ 2 * nodes ≤ second)

structure Topology.Built (counts : List Nat) (allowed : Int → Prop) (topology : Topology) :
    Prop where
  machines : topology.counts = counts
  links : ∀ first second entry, topology.linkMap.lookup (first, second) = some entry →
    LinkShape counts.sum first second ∧ allowed entry.link.weight

namespace Topology

variable {counts : List Nat} {numRouters : Nat} {allowed : Int → Prop} {topology next : Topology}
  {first second : Nat} {weight : Int}

theorem Built.addLink (built : topology.Built counts allowed) {src dest : Nat} {link : BasicLink}
    {direction : LinkDirection} (shape : LinkShape counts.sum src dest)
    (weight : allowed link.weight) (taken : topology.addLink src dest link direction = .ok next) :
    next.Built counts allowed := by
  rw [Topology.addLink] at taken
  obtain ⟨-, taken⟩ := then_eq_ok taken
  cases taken
  refine ⟨built.machines, fun first second entry found => ?_⟩
  by_cases here : (first, second) = (src, dest)
  · cases here
    rw [AList.lookup_insert] at found
    cases found
    exact ⟨shape, weight⟩
  · rw [AList.lookup_insert_ne here] at found
    exact built.links first second entry found

theorem index_lt {machine : MachineID} (known : machine.Known counts) :
    machine.index counts < counts.sum := by
  have bound := (List.getElem?_eq_some_iff.mp (getElem?_machines known)).1
  have all := length_before counts (le_refl counts.length)
  rw [MachineType_base_number, take_length] at all
  exact all ▸ bound

theorem Built.addExtLink (built : topology.Built counts allowed)
    {external : BasicExtLink counts numRouters} (weight : allowed external.link.weight)
    (taken : topology.addExtLink external = .ok next) : next.Built counts allowed := by
  have inside : external.extNode.index counts < counts.sum := index_lt external.known
  rw [MachineID.index] at inside
  obtain ⟨_, first, second⟩ := bind_eq_ok taken
  refine (built.addLink ?_ weight first).addLink ?_ weight second
  · exact ⟨.inl inside, by omega, .inr (by omega)⟩
  · exact ⟨.inr (by omega), by omega, .inl (by omega)⟩

theorem Built.addIntLink (built : topology.Built counts allowed)
    {internal : BasicIntLink numRouters} (weight : allowed internal.link.weight)
    (taken : topology.addIntLink internal = .ok next) : next.Built counts allowed := by
  obtain ⟨_, first, second⟩ := bind_eq_ok taken
  rw [nodes, built.machines] at first second
  refine (built.addLink ?_ weight first).addLink ?_ weight second
  · exact ⟨.inr (by omega), by omega, .inl (by omega)⟩
  · exact ⟨.inr (by omega), by omega, .inl (by omega)⟩

theorem make_built {extLinks : List (BasicExtLink counts numRouters)}
    {intLinks : List (BasicIntLink numRouters)}
    (made : make counts numRouters extLinks intLinks = .ok topology)
    (external : ∀ link ∈ extLinks, allowed link.link.weight)
    (internal : ∀ link ∈ intLinks, allowed link.link.weight) : topology.Built counts allowed := by
  rw [make] at made
  obtain ⟨-, made⟩ := then_eq_ok made
  obtain ⟨-, made⟩ := then_eq_ok made
  obtain ⟨_, first, second⟩ := bind_eq_ok made
  have empty : (Topology.mk counts numRouters ∅).Built counts allowed :=
    ⟨rfl, fun _ _ _ found => (nomatch found)⟩
  have between := foldlM_invariant (Topology.Built counts allowed)
    (fun _ link member _ built taken => built.addExtLink (external link member) taken) empty
    first
  exact foldlM_invariant (Topology.Built counts allowed)
    (fun _ link member _ built taken => built.addIntLink (internal link member) taken) between
    second

/-! ### The weights -/

theorem foldl_set (links : List (Sigma fun _ : Nat × Nat => LinkEntry)) (nodup : links.NodupKeys)
    (matrix : Matrix) (i j : Nat) :
    links.foldl (fun (matrix : Matrix) link => matrix.set link.1.1 link.1.2 link.2.link.weight)
      matrix i j = ((links.dlookup (i, j)).map (·.link.weight)).getD (matrix i j) := by
  induction links generalizing matrix with
  | nil => rfl
  | cons link _ hypothesis =>
    obtain ⟨⟨row, column⟩, _⟩ := link
    obtain ⟨fresh, nodup⟩ := nodupKeys_cons.mp nodup
    rw [foldl_cons, hypothesis nodup]
    by_cases here : i = row ∧ j = column
    · obtain ⟨rfl, rfl⟩ := here
      rw [dlookup_cons_eq, dlookup_eq_none.mpr fresh, Option.map_none, Option.getD_none,
        Matrix.set_self]
      rfl
    · rw [Matrix.set_other _ _ here, dlookup_cons_ne]
      exact fun same => here ⟨congrArg Prod.fst same, congrArg Prod.snd same⟩

theorem foldl_identity (size : Nat) (matrix : Matrix) (i j : Nat) :
    (range size).foldl (fun (matrix : Matrix) i => matrix.set i i 0) matrix i j =
      if i = j ∧ i < size then 0 else matrix i j := by
  induction size with
  | zero => rw [if_neg fun no => Nat.not_lt_zero i no.2]; rfl
  | succ size hypothesis =>
    rw [range_succ, foldl_append, foldl_cons, foldl_nil]
    by_cases here : i = size ∧ j = size
    · obtain ⟨rfl, rfl⟩ := here
      rw [Matrix.set_self, if_pos ⟨rfl, Nat.lt_succ_self _⟩]
    · rw [Matrix.set_other _ _ here, hypothesis]
      refine if_congr ?_ rfl rfl
      omega

theorem weights_eq (topology : Topology) (i j : Nat) :
    topology.weights i j = ((topology.linkMap.lookup (i, j)).map (·.link.weight)).getD
      (if i = j ∧ i < topology.numSwitches then 0 else INFINITE_LATENCY) := by
  rw [weights, foldl_set _ topology.linkMap.nodupKeys, foldl_identity]
  rfl

/-- A link of the topology, between two switches. -/
def Linked (topology : Topology) (first second : Nat) (weight : Int) : Prop :=
  ∃ entry, topology.linkMap.lookup (first, second) = some entry ∧ weight = entry.link.weight

theorem Linked.weight_eq (linked : topology.Linked first second weight) :
    topology.weights first second = weight := by
  obtain ⟨_, found, rfl⟩ := linked
  rw [weights_eq, found]
  rfl

theorem Linked.lt (linked : topology.Linked first second weight) :
    first < topology.numSwitches ∧ second < topology.numSwitches := by
  obtain ⟨entry, found, _⟩ := linked
  have member : (⟨(first, second), entry⟩ : Sigma fun _ : Nat × Nat => LinkEntry) ∈
      topology.linkMap.entries := of_mem_dlookup found
  have grows : ∀ (links : List (Sigma fun _ : Nat × Nat => LinkEntry)) (id bound : Nat),
      links.foldl (fun id link => max (max id link.1.1) link.1.2) id ≤ bound →
      id ≤ bound ∧ ∀ link ∈ links, link.1.1 ≤ bound ∧ link.1.2 ≤ bound := by
    intro links
    induction links with
    | nil => exact fun _ _ bounded => ⟨bounded, nofun⟩
    | cons link _ hypothesis =>
      intro _ _ bounded
      rw [foldl_cons] at bounded
      obtain ⟨_, others⟩ := hypothesis _ _ bounded
      exact ⟨by omega, forall_mem_cons.mpr ⟨⟨by omega, by omega⟩, others⟩⟩
  obtain ⟨left, right⟩ := (grows topology.linkMap.entries 0 _ le_rfl).2 _ member
  exact ⟨Nat.lt_succ_of_le left, Nat.lt_succ_of_le right⟩

/-- A pair that is not far apart is one switch, or has a link. -/
theorem linked_of_weights {i j : Nat} (near : topology.weights i j ≠ INFINITE_LATENCY) :
    i = j ∧ topology.weights i j = 0 ∨ topology.Linked i j (topology.weights i j) := by
  cases found : topology.linkMap.lookup (i, j) with
  | none =>
    rw [weights_eq, found] at near ⊢
    rw [Option.map_none, Option.getD_none] at near ⊢
    split at near
    · rename_i same
      rw [if_pos same]
      exact .inl ⟨same.1, rfl⟩
    · exact absurd rfl near
  | some entry =>
    refine .inr ⟨entry, found, ?_⟩
    rw [weights_eq, found]
    rfl

/-! ### The links that are made -/

/-- The weights that the links may have. -/
def Moderate (weight : Int) : Prop := 0 < weight ∧ weight < 2 ^ 30
deriving Decidable

theorem Built.sound (built : topology.Built counts Moderate) :
    Sound topology.weights topology.numSwitches := by
  intro i j _ _
  rw [weights_eq]
  cases found : topology.linkMap.lookup (i, j) with
  | none =>
    rw [Option.map_none, Option.getD_none]
    split
    · decide
    · decide
  | some entry =>
    obtain ⟨positive, small⟩ := (built.links i j entry found).2
    exact ⟨positive.le, small⟩

end Topology

/-- The switches that a link of the network connects. -/
def LinkKind.source (nodes : Nat) : LinkKind → Nat
  | .inLink node _ => node
  | .outLink router _ => router + 2 * nodes
  | .internalLink first _ => first + 2 * nodes

def LinkKind.target (nodes : Nat) : LinkKind → Nat
  | .inLink _ router => router + 2 * nodes
  | .outLink _ node => node + nodes
  | .internalLink _ second => second + 2 * nodes

namespace Topology

variable {counts : List Nat} {topology : Topology} {first second : Nat} {weight : Int}

theorem linkKind_ok (same : topology.counts = counts)
    (shape : LinkShape counts.sum first second) : ∃ kind,
      topology.linkKind first second = .ok kind ∧ kind.source counts.sum = first ∧
      kind.target counts.sum = second := by
  obtain ⟨_, out, _⟩ := shape
  rw [linkKind, nodes, same, if_neg (by omega)]
  by_cases node : first < counts.sum
  · rw [if_pos node]
    refine ⟨_, rfl, rfl, ?_⟩
    rw [LinkKind.target]
    omega
  · rw [if_neg node]
    by_cases last : second < 2 * counts.sum
    · rw [if_pos last, if_pos out]
      refine ⟨_, rfl, ?_, ?_⟩
      · rw [LinkKind.source]
        omega
      · rw [LinkKind.target]
        omega
    · rw [if_neg last, if_pos (by omega)]
      refine ⟨_, rfl, ?_, ?_⟩
      · rw [LinkKind.source]
        omega
      · rw [LinkKind.target]
        omega

/-- A message to a machine may take a link of the network. -/
def Routes (counts : List Nat) (links : List NetLink) (machine : MachineID) (first second : Nat)
    (weight : Int) : Prop :=
  ∃ link ∈ links, link.kind.source counts.sum = first ∧ link.kind.target counts.sum = second ∧
    weight = link.entry.link.weight ∧ link.routingTableEntry.isElement machine = some true

section

variable (built : topology.Built counts Moderate)
include built

theorem makeLink_ok (small : ∀ count ∈ counts, count ≤ 32)
    (linked : topology.Linked first second weight) (dist : Matrix) : ∃ link,
    (shortest_path_to_node topology.counts first second topology.weights dist >>=
      topology.makeLink first second) = .ok link ∧ link.kind.source counts.sum = first ∧
      link.kind.target counts.sum = second ∧ weight = link.entry.link.weight ∧
      ∀ machine : MachineID, machine.Known counts →
        (link.routingTableEntry.isElement machine = some true ↔
          addInt (topology.weights first second) (dist second (machine.index counts + counts.sum)) =
            dist first (machine.index counts + counts.sum)) := by
  obtain ⟨entry, found, same⟩ := linked
  obtain ⟨kind, taken, source, target⟩ :=
    linkKind_ok built.machines (built.links first second entry found).1
  obtain ⟨dest, listed, elements⟩ :=
    shortest_path_to_node_ok small first second topology.weights dist
  refine ⟨⟨kind, entry, dest⟩, ?_, source, target, same, elements⟩
  rw [built.machines, listed, ok_bind, makeLink, taken, ok_bind, found]
  rfl

theorem Linked.moderate (linked : topology.Linked first second weight) : Moderate weight := by
  obtain ⟨entry, found, rfl⟩ := linked
  exact (built.links first second entry found).2

/-- The links that are made are those of the topology, except those that are as far as no link at
all. -/
theorem mem_linked {pair : Nat × Nat} :
    pair ∈ ((pairs topology.numSwitches).filter fun pair =>
      0 < topology.weights pair.1 pair.2 ∧ topology.weights pair.1 pair.2 ≠ INFINITE_LATENCY) ↔
    topology.Linked pair.1 pair.2 (topology.weights pair.1 pair.2) ∧
      topology.weights pair.1 pair.2 ≠ INFINITE_LATENCY := by
  rw [mem_filter, decide_eq_true_eq, mem_pairs]
  constructor
  · rintro ⟨_, positive, near⟩
    rcases linked_of_weights near with ⟨_, zero⟩ | linked
    · exact absurd zero positive.ne'
    · exact ⟨linked, near⟩
  · rintro ⟨linked, near⟩
    exact ⟨linked.lt, (linked.moderate built).1, near⟩

end

/-- The links of the network and the table of distances that they are made from. -/
structure Delivers (topology : Topology) (counts : List Nat) (links : List NetLink)
    (dist : Matrix) : Prop where
  tabled : Tabled topology.weights topology.numSwitches dist
  settled : ∀ pair ∈ pairs topology.numSwitches, Settled topology.numSwitches dist pair
  routes : ∀ machine : MachineID, machine.Known counts →
    machine.index counts + counts.sum < topology.numSwitches → ∀ first second weight,
    Routes counts links machine first second weight ↔
      topology.Linked first second weight ∧ weight ≠ INFINITE_LATENCY ∧
        dist first (machine.index counts + counts.sum) =
          weight + dist second (machine.index counts + counts.sum)

theorem createLinks_ok (built : topology.Built counts Moderate)
    (few : ∀ count ∈ counts, count ≤ 32) : ∃ dist links enough,
    (∀ fuel, enough ≤ fuel → topology.createLinks fuel = .ok links) ∧
      topology.Delivers counts links dist := by
  obtain ⟨table, enough, ends, tabled, settled⟩ := extend_shortest_path_spec built.sound
    ⟨topology.weights, topology.latencies, fun _ _ => 0⟩ (Tabled.initial _ _)
  obtain ⟨links, taken, members⟩ := mapM_ok fun pair member =>
    let ⟨link, made, _⟩ := makeLink_ok built few ((mem_linked built).mp member).1 table.dist
    ⟨link, made⟩
  refine ⟨table.dist, links, enough, fun fuel many => ?_, tabled, settled, ?_⟩
  · rw [createLinks, shortest_path, ends fuel many]
    exact taken
  · intro machine known inside first second weight
    have sum : topology.Linked first second weight →
        addInt (topology.weights first second)
            (table.dist second (machine.index counts + counts.sum)) =
          weight + table.dist second (machine.index counts + counts.sum) := by
      intro linked
      obtain ⟨positive, small⟩ := linked.moderate built
      rw [linked.weight_eq]
      exact addInt_eq positive.le small (tabled.nonneg built.sound linked.lt.2 inside)
        (lt_of_le_of_lt (tabled.below _ _) (built.sound _ _ linked.lt.2 inside).2)
    constructor
    · rintro ⟨link, member, starts, leads, weighs, among⟩
      obtain ⟨pair, kept, made⟩ := (members link).mp member
      obtain ⟨linked, near⟩ := (mem_linked built).mp kept
      obtain ⟨_, again, source, target, weight, elements⟩ :=
        makeLink_ok built few linked table.dist
      cases again.symm.trans made
      obtain rfl := source.symm.trans starts
      obtain rfl := target.symm.trans leads
      obtain rfl := weighs.trans weight.symm
      rw [elements machine known, sum linked] at among
      exact ⟨linked, near, among.symm⟩
    · rintro ⟨linked, near, shortest⟩
      have same := linked.weight_eq
      obtain ⟨link, made, source, target, weight, elements⟩ :=
        makeLink_ok built few linked table.dist
      refine ⟨link, (members link).mpr ⟨(first, second), (mem_linked built).mpr ?_, made⟩, source,
        target, weight, ?_⟩
      · rw [same]
        exact ⟨linked, near⟩
      · rw [elements machine known, sum linked]
        exact shortest.symm

/-! ### Delivery -/

section Delivery

variable {links : List NetLink} {dist : Matrix} {machine : MachineID} {place : Nat}

section

variable (delivers : topology.Delivers counts links dist)
include delivers

theorem Delivers.le_of_linked {final : Nat} (inside : final < topology.numSwitches)
    (first second : Nat) (weight : Int) (linked : topology.Linked first second weight) :
    dist first final ≤ weight + dist second final := by
  have settled := delivers.settled (first, final) (mem_pairs.mpr ⟨linked.lt.1, inside⟩) second
    linked.lt.2
  have below := delivers.tabled.below first second
  rw [linked.weight_eq] at below
  exact le_trans settled (Int.add_le_add_right below _)

theorem Delivers.tight (known : machine.Known counts)
    (inside : machine.index counts + counts.sum < topology.numSwitches) (first second : Nat)
    (weight : Int) (routes : Routes counts links machine first second weight) :
    dist first (machine.index counts + counts.sum) =
      weight + dist second (machine.index counts + counts.sum) :=
  ((delivers.routes machine known inside first second weight).mp routes).2.2

section

variable (built : topology.Built counts Moderate)
include built

section

variable (known : machine.Known counts)
include known

section

variable (inside : machine.index counts + counts.sum < topology.numSwitches)
include inside

theorem Delivers.dist_self :
    dist (machine.index counts + counts.sum) (machine.index counts + counts.sum) = 0 := by
  refine le_antisymm ?_ (delivers.tabled.nonneg built.sound inside inside)
  refine le_trans (delivers.tabled.below _ _) ?_
  have alone : topology.linkMap.lookup
      (machine.index counts + counts.sum, machine.index counts + counts.sum) = none := by
    -- No link leads on from a machine's way out of the network.
    rw [Option.eq_none_iff_forall_ne_some]
    intro entry found
    have inside := index_lt known
    obtain ⟨⟨into, _⟩, _⟩ := built.links _ _ entry found
    omega
  rw [weights_eq, alone, Option.map_none, Option.getD_none, if_pos ⟨rfl, inside⟩]

theorem Delivers.exists_route (within : place < topology.numSwitches)
    (elsewhere : place ≠ machine.index counts + counts.sum)
    (near : dist place (machine.index counts + counts.sum) < INFINITE_LATENCY) :
    ∃ next weight, Routes counts links machine place next weight := by
  have walk := delivers.tabled.walk place _ within inside
  obtain ⟨visited, path⟩ : ∃ visited, Path topology.Linked place visited
      (dist place (machine.index counts + counts.sum)) (machine.index counts + counts.sum) :=
    walk.path (fun first second left right => (built.sound first second left right).1)
      (fun first second _ _ close => linked_of_weights close.ne) near
  generalize shortest : dist place (machine.index counts + counts.sum) = total at path near
  cases path with
  | nil => exact absurd rfl elsewhere
  | @cons _ next _ weight _ _ linked rest =>
    have later := rest.le_of_potential (delivers.le_of_linked inside)
    have here := delivers.le_of_linked inside _ _ _ linked
    have nonneg := delivers.tabled.nonneg built.sound linked.lt.2 inside
    rw [delivers.dist_self built known inside] at later
    refine ⟨next, weight, (delivers.routes machine known inside place next weight).mpr
      ⟨linked, ?_, ?_⟩⟩
    · omega
    · omega

theorem Delivers.lowers (first second : Nat)
    (weight : Int) (routes : Routes counts links machine first second weight) :
    dist second (machine.index counts + counts.sum) <
      dist first (machine.index counts + counts.sum) := by
  obtain ⟨linked, _⟩ := (delivers.routes machine known inside first second weight).mp routes
  have positive := (linked.moderate built).1
  omega

end

end

end

end

end Delivery

/-- A message to a machine, from a switch that is nearer to it than the weight that stands for no
link. It finds a link to take as long as it has not arrived, comes to no switch twice, and its way
is a shortest one when it arrives. -/
theorem createLinks_delivers {numRouters : Nat} {extLinks : List (BasicExtLink counts numRouters)}
    {intLinks : List (BasicIntLink numRouters)} (few : ∀ count ∈ counts, count ≤ 32)
    (made : make counts numRouters extLinks intLinks = .ok topology)
    (external : ∀ link ∈ extLinks, Moderate link.link.weight)
    (internal : ∀ link ∈ intLinks, Moderate link.link.weight) : ∃ links enough,
    (∀ fuel, enough ≤ fuel → topology.createLinks fuel = .ok links) ∧
    ∀ machine : MachineID, machine.Known counts → ∀ place,
      place ≠ machine.index counts + counts.sum →
      (∃ way total, Path topology.Linked place way total (machine.index counts + counts.sum) ∧
        total < INFINITE_LATENCY) →
      (∃ next weight, Routes counts links machine place next weight) ∧
      ∀ visited total last, Path (Routes counts links machine) place visited total last →
        visited.Nodup ∧ visited.length ≤ topology.numSwitches ∧
        (last ≠ machine.index counts + counts.sum →
          ∃ next weight, Routes counts links machine last next weight) ∧
        (last = machine.index counts + counts.sum → ∀ way other,
          Path topology.Linked place way other (machine.index counts + counts.sum) →
          total ≤ other) := by
  have built := make_built made external internal
  obtain ⟨_, links, enough, created, delivers⟩ := createLinks_ok built few
  refine ⟨links, enough, created, fun machine known place elsewhere => ?_⟩
  rintro ⟨way, least, reaches, near⟩
  obtain ⟨within, inside⟩ : place < topology.numSwitches ∧
      machine.index counts + counts.sum < topology.numSwitches := by
    cases reaches with
    | nil => exact absurd rfl elsewhere
    | @cons _ _ _ _ _ later linked rest =>
      have members : ∀ switch ∈ later, switch < topology.numSwitches :=
        rest.mem_of_edge (fun _ _ _ linked => linked.lt.2) linked.lt.2
      exact ⟨linked.lt.1, members _ rest.last_mem⟩
  have bound := reaches.le_of_potential (delivers.le_of_linked inside)
  rw [delivers.dist_self built known inside, Int.add_zero] at bound
  have close := lt_of_le_of_lt bound near
  refine ⟨delivers.exists_route built known inside within elsewhere close,
    fun visited total last path => ?_⟩
  have lowers := delivers.lowers built known inside
  have nodup := path.nodup lowers
  have members : ∀ switch ∈ visited, switch < topology.numSwitches :=
    path.mem_of_edge (fun _ _ _ routes =>
      ((delivers.routes machine known inside _ _ _).mp routes).1.lt.2) within
  have spent := path.eq_of_tight (delivers.tight known inside)
  refine ⟨nodup, ?_, fun short => ?_, fun arrived way other path => ?_⟩
  · have among : visited ⊆ range topology.numSwitches :=
      fun switch member => mem_range.mpr (members switch member)
    exact (nodup.subperm among).length_le.trans_eq length_range
  · exact delivers.exists_route built known inside (members last path.last_mem) short
      (lt_of_le_of_lt (path.le_of_mem lowers last path.last_mem) close)
  · have least := path.le_of_potential (delivers.le_of_linked inside)
    rw [arrived] at spent
    omega

/-- Two machines at one router, each by a link of the same weight. -/
def star (weight : Int) : List (BasicExtLink [2] 1) :=
  [⟨⟨1, weight⟩, ⟨0, 0⟩, by decide, 0⟩, ⟨⟨1, weight⟩, ⟨0, 1⟩, by decide, 0⟩]

/-- The only router is connected with itself, but no link of the first machine leads to the second
one, which is farther away than the weight that stands for no link. -/
theorem distant_machine_not_delivered : ∃ topology links,
    make [2] 1 (star 6000) [] = .ok topology ∧ topology.createLinks 3 = .ok links ∧
    (∀ first second : Fin 1, ∃ way total,
      Path topology.Linked (first + 2 * 2) way total (second + 2 * 2) ∧
        total < INFINITE_LATENCY) ∧
    ¬ ∃ next weight, Routes [2] links ⟨0, 1⟩ 0 next weight := by
  obtain ⟨topology, made, checked⟩ : ∃ topology, make [2] 1 (star 6000) [] = .ok topology ∧
      (match topology.createLinks 3 with
        | .ok links => links.all fun link =>
            link.kind.source 2 != 0 || link.routingTableEntry.isElement ⟨0, 1⟩ != some true
        | .error _ => false) = true := exists_of_check (by decide +kernel)
  cases created : topology.createLinks 3 with
  | error =>
    rw [created] at checked
    cases checked
  | ok links =>
    rw [created] at checked
    refine ⟨topology, links, made, created, fun first second => ?_, ?_⟩
    · cases Subsingleton.elim first second
      exact ⟨_, 0, .nil _, by decide⟩
    · rintro ⟨_, _, link, member, source, _, _, among⟩
      have kept := all_eq_true.mp checked link member
      rw [Bool.or_eq_true, bne_iff_ne, bne_iff_ne] at kept
      rcases kept with apart | missing
      · exact apart source
      · exact missing among

/-- With links of weight one the first machine reaches the second one. -/
theorem createLinks_delivers_star : ∃ topology links,
    make [2] 1 (star 1) [] = .ok topology ∧ (∃ fuel, topology.createLinks fuel = .ok links) ∧
    ∃ next weight, Routes [2] links ⟨0, 1⟩ 0 next weight := by
  obtain ⟨topology, made, checked⟩ : ∃ topology, make [2] 1 (star 1) [] = .ok topology ∧
      (topology.linkMap.lookup (0, 4) == some ⟨⟨1, 1⟩, .In⟩ &&
        topology.linkMap.lookup (4, 3) == some ⟨⟨1, 1⟩, .Out⟩) = true :=
    exists_of_check (by decide +kernel)
  rw [Bool.and_eq_true, beq_iff_eq, beq_iff_eq] at checked
  obtain ⟨links, enough, created, delivers⟩ := createLinks_delivers (by decide) made
    (by decide) (by decide)
  have known : MachineID.Known [2] ⟨0, 1⟩ := by decide
  exact ⟨topology, links, made, ⟨enough, created enough (le_refl enough)⟩,
    (delivers ⟨0, 1⟩ known 0 (by decide)
      ⟨_, _, .cons ⟨_, checked.1, rfl⟩ (.cons ⟨_, checked.2, rfl⟩ (.nil 3)), by decide⟩).1⟩

end Topology

end Gem5.Ruby.Network
