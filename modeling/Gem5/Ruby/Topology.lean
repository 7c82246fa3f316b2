/-
This file models the topology of a Ruby network (`mem/ruby/network/Topology.cc`): the
map of one-way links that the constructor makes of the external and the internal
links, the table of shortest paths that is relaxed in place until nothing changes,
and the links with their sets of destinations (`mem/ruby/common/NetDest.cc`) that the
network is told to make. Switches are numbered as there: first the nodes' ways into the
network, then the ways out, then the routers.
-/

import Gem5.Library.ShortestPath
import Gem5.Ruby.Set

namespace Gem5.Ruby.Network

open Library Function List

inductive Fault where
  | assertion
  | fatal
  | missingLink
  | outOfBounds
  | outOfFuel
deriving DecidableEq, Repr

def INFINITE_LATENCY : Int := 10000

/-- The sum of two values of type `int`. -/
def addInt (left right : Int) : Int := (left + right).bmod (2 ^ 32)

theorem addInt_eq {left right : Int} (leftNonneg : 0 ≤ left) (leftSmall : left < 2 ^ 30)
    (rightNonneg : 0 ≤ right) (rightSmall : right < 2 ^ 30) : addInt left right = left + right :=
  Int.bmod_eq_of_le (by omega) (by omega)

/-! ### Machines and links -/

structure MachineID where
  type : Nat
  num : Nat
deriving DecidableEq, Repr

/-- The number of the machines of the types before one. -/
def MachineType_base_number (counts : List Nat) (type : Nat) : Nat := (counts.take type).sum

/-- A set of machines: for each type a set of their numbers. -/
abbrev NetDest := List Common.Set

namespace NetDest

def create (counts : List Nat) : NetDest := counts.map Common.Set.ofSize

def add (netDest : NetDest) (machine : MachineID) : Except Fault NetDest :=
  match netDest[machine.type]? with
  | none => .error .assertion
  | some bits =>
    if machine.num < bits.size then
      match bits.add machine.num with
      | .ok added => .ok (netDest.set machine.type added)
      | .error _ => .error .outOfBounds
    else .error .assertion

def isElement (netDest : NetDest) (machine : MachineID) : Option Bool :=
  netDest[machine.type]?.bind fun bits => (bits.isElement machine.num).toOption

end NetDest

structure BasicLink where
  latency : Int
  weight : Int
deriving DecidableEq, Repr

/-- A link between a controller, which is one of the machines there are, and a router. -/
structure BasicExtLink (counts : List Nat) (numRouters : Nat) where
  link : BasicLink
  extNode : MachineID
  known : extNode.num < counts[extNode.type]?.getD 0
  intNode : Fin numRouters

structure BasicIntLink (numRouters : Nat) where
  link : BasicLink
  nodeA : Fin numRouters
  nodeB : Fin numRouters

inductive LinkDirection where
  | In
  | Out
deriving DecidableEq, Repr

structure LinkEntry where
  link : BasicLink
  direction : LinkDirection
deriving DecidableEq, Repr

abbrev LinkMap := AList fun _ : Nat × Nat => LinkEntry

structure Topology where
  counts : List Nat
  numberOfSwitches : Nat
  linkMap : LinkMap

namespace Topology

def nodes (topology : Topology) : Nat := topology.counts.sum

def addLink (topology : Topology) (src dest : Nat) (link : BasicLink) (direction : LinkDirection) :
    Except Fault Topology :=
  if src ≤ topology.numberOfSwitches + topology.nodes + topology.nodes ∧
      dest ≤ topology.numberOfSwitches + topology.nodes + topology.nodes then
    .ok { topology with linkMap := topology.linkMap.insert (src, dest) ⟨link, direction⟩ }
  else .error .assertion

/-- The ways of a controller into the network and out of it. -/
def addExtLink {counts : List Nat} {numRouters : Nat} (topology : Topology)
    (external : BasicExtLink counts numRouters) : Except Fault Topology := do
  let machineBaseIdx := MachineType_base_number counts external.extNode.type
  let extIdx1 := machineBaseIdx + external.extNode.num
  let extIdx2 := extIdx1 + counts.sum
  let intIdx := external.intNode + 2 * counts.sum
  let topology ← topology.addLink extIdx1 intIdx external.link .In
  topology.addLink intIdx extIdx2 external.link .Out

def addIntLink {numRouters : Nat} (topology : Topology) (internal : BasicIntLink numRouters) :
    Except Fault Topology := do
  let a := internal.nodeA + 2 * topology.nodes
  let b := internal.nodeB + 2 * topology.nodes
  let topology ← topology.addLink a b internal.link .In
  topology.addLink b a internal.link .Out

/-- The constructor. -/
def make (counts : List Nat) (numRouters : Nat) (extLinks : List (BasicExtLink counts numRouters))
    (intLinks : List (BasicIntLink numRouters)) : Except Fault Topology :=
  if 1 < counts.sum then
    if counts.sum = extLinks.length then do
      let topology ← extLinks.foldlM addExtLink ⟨counts, numRouters, ∅⟩
      intLinks.foldlM addIntLink topology
    else .error .fatal
  else .error .assertion

end Topology

/-! ### The table of shortest paths -/

abbrev Matrix := Nat → Nat → Int

def Matrix.set (matrix : Matrix) (row column : Nat) (value : Int) : Matrix :=
  update matrix row (update (matrix row) column value)

theorem Matrix.set_self (matrix : Matrix) (row column : Nat) (value : Int) :
    matrix.set row column value row column = value := by
  rw [Matrix.set, update_self, update_self]

theorem Matrix.set_other (matrix : Matrix) {row column i j : Nat} (value : Int)
    (apart : ¬ (i = row ∧ j = column)) : matrix.set row column value i j = matrix i j := by
  rw [Matrix.set]
  by_cases sameRow : i = row
  · subst sameRow
    rw [update_self, update_of_ne fun sameColumn => apart ⟨rfl, sameColumn⟩]
  · rw [update_of_ne sameRow]

/-- What the search for an intermediate switch has found so far. -/
structure Scan where
  minimum : Int
  intermediateSwitch : Option Nat
  interSwitches : Matrix

/-- One round of the innermost loop. -/
def scanSwitch (dist : Matrix) (i j : Nat) (scan : Scan) (k : Nat) : Scan :=
  let minimum := min scan.minimum (addInt (dist i k) (dist k j))
  if scan.minimum ≠ minimum then
    ⟨minimum, some k, scan.interSwitches.set i j
      (addInt (addInt (scan.interSwitches i k) (scan.interSwitches k j)) 1)⟩
  else ⟨minimum, scan.intermediateSwitch, scan.interSwitches⟩

structure PathTable where
  dist : Matrix
  latencies : Matrix
  interSwitches : Matrix

/-- What becomes of one pair of switches, and whether anything has changed. -/
def relaxEntry (nodes : Nat) (state : PathTable × Bool) (pair : Nat × Nat) :
    Except Fault (PathTable × Bool) :=
  let table := state.1
  let i := pair.1
  let j := pair.2
  let scan := (range nodes).foldl (scanSwitch table.dist i j)
    ⟨table.dist i j, none, table.interSwitches⟩
  if table.dist i j ≠ scan.minimum then
    match scan.intermediateSwitch with
    | none => .error .assertion
    | some k =>
      if k < nodes then
        .ok (⟨table.dist.set i j scan.minimum,
          table.latencies.set i j (addInt (table.latencies i k) (table.latencies k j)),
          scan.interSwitches⟩, true)
      else .error .assertion
  else .ok (⟨table.dist, table.latencies, scan.interSwitches⟩, state.2)

def pairs (nodes : Nat) : List (Nat × Nat) :=
  (range nodes).flatMap fun i => (range nodes).map fun j => (i, j)

/-- The loop goes round until nothing changes. -/
def extend_shortest_path (nodes : Nat) : Nat → PathTable → Except Fault PathTable
  | 0, _ => .error .outOfFuel
  | fuel + 1, table => do
    let state ← (pairs nodes).foldlM (relaxEntry nodes) (table, false)
    if state.2 then extend_shortest_path nodes fuel state.1 else return state.1

def shortest_path (nodes fuel : Nat) (weights latencies interSwitches : Matrix) :
    Except Fault PathTable :=
  extend_shortest_path nodes fuel ⟨weights, latencies, interSwitches⟩

/-! ### The links of the network -/

def link_is_shortest_path_to_node (src next final : Nat) (weights dist : Matrix) : Bool :=
  addInt (weights src next) (dist next final) == dist src final

/-- The machines, in the order of their numbers. -/
def machines (counts : List Nat) : List MachineID :=
  (range counts.length).flatMap fun type =>
    (range (counts[type]?.getD 0)).map fun num => ⟨type, num⟩

def shortest_path_to_node (counts : List Nat) (src next : Nat) (weights dist : Matrix) :
    Except Fault NetDest :=
  (machines counts).zipIdx.foldlM (fun result machine =>
    if link_is_shortest_path_to_node src next (machine.2 + counts.sum) weights dist then
      result.add machine.1
    else .ok result) (NetDest.create counts)

inductive LinkKind where
  | inLink (node router : Nat)
  | outLink (router node : Nat)
  | internalLink (first second : Nat)
deriving DecidableEq, Repr

/-- A link that the network is told to make, with its entry of the routing table. -/
structure NetLink where
  kind : LinkKind
  entry : LinkEntry
  routingTableEntry : NetDest
deriving DecidableEq, Repr

namespace Topology

variable (topology : Topology)

def linkKind (src dest : Nat) : Except Fault LinkKind :=
  if src < 2 * topology.nodes ∧ dest < 2 * topology.nodes then .error .assertion
  else if src < topology.nodes then .ok (.inLink src (dest - 2 * topology.nodes))
  else if dest < 2 * topology.nodes then
    if topology.nodes ≤ dest then
      .ok (.outLink (src - 2 * topology.nodes) (dest - topology.nodes))
    else .error .assertion
  else if 2 * topology.nodes ≤ src then
    .ok (.internalLink (src - 2 * topology.nodes) (dest - 2 * topology.nodes))
  else .error .assertion

def makeLink (src dest : Nat) (routingTableEntry : NetDest) : Except Fault NetLink := do
  let kind ← topology.linkKind src dest
  match topology.linkMap.lookup (src, dest) with
  | some entry => return ⟨kind, entry, routingTableEntry⟩
  | none => .error .missingLink

def maxSwitchId : Nat :=
  topology.linkMap.entries.foldl (fun id link => max (max id link.1.1) link.1.2) 0

def numSwitches : Nat := topology.maxSwitchId + 1

/-- No link, no way from a switch to itself, and then the links. -/
def weights : Matrix :=
  let identity := (range topology.numSwitches).foldl (fun (matrix : Matrix) i => matrix.set i i 0)
    fun _ _ => INFINITE_LATENCY
  topology.linkMap.entries.foldl
    (fun (matrix : Matrix) link => matrix.set link.1.1 link.1.2 link.2.link.weight) identity

def latencies : Matrix :=
  topology.linkMap.entries.foldl
    (fun (matrix : Matrix) link => matrix.set link.1.1 link.1.2 link.2.link.latency) fun _ _ => -1

def createLinks (fuel : Nat) : Except Fault (List NetLink) := do
  let table ← shortest_path topology.numSwitches fuel topology.weights topology.latencies
    fun _ _ => 0
  let linked := (pairs topology.numSwitches).filter fun pair =>
    0 < topology.weights pair.1 pair.2 ∧ topology.weights pair.1 pair.2 ≠ INFINITE_LATENCY
  linked.mapM fun pair => do
    let destinationSet ← shortest_path_to_node topology.counts pair.1 pair.2 topology.weights
      table.dist
    topology.makeLink pair.1 pair.2 destinationSet

end Topology

end Gem5.Ruby.Network
