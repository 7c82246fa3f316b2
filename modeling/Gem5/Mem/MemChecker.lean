/-
This file models the memory checker (`mem/mem_checker.cc`). Every byte has a
tracker with its outstanding reads, the completed reads as observations and the
writes in clusters; a read that completes is compared with the last observation
before it and with the writes of the clusters, from the newest to the oldest.
What is no longer needed is pruned. Ticks are numbers, and the assertions of the
source are faults.
-/

import Gem5.Base.AddrRange
import Gem5.Library.OrderedMap
import Gem5.Library.Run
import Mathlib

namespace Gem5.Mem

open Base Library

abbrev Byte := BitVec 8

abbrev Serial := Nat

/-- `TICK_INITIAL`. -/
def tickInitial : Nat := 0

/-- `TICK_FUTURE`. -/
def tickFuture : Nat := 2 ^ 64 - 1

/-- The assertions. -/
inductive CheckerFault where
  | clusterComplete
  | fillOrder
  | reopened
  | completedTwice
  | noTransactions
  | laterObservation
  | noOverlap
  | noExpectedData
deriving DecidableEq, Repr

structure Transaction where
  serial : Serial
  start : Nat
  complete : Nat
  data : Byte
deriving DecidableEq, Repr

/-! ### `WriteCluster` -/

/-- The writes are in the order of their starts, of which the source makes no use. -/
structure WriteCluster where
  start : Nat
  complete : Nat
  writes : List Transaction
  completeMax : Nat
  numIncomplete : Nat
deriving DecidableEq, Repr

namespace WriteCluster

def new : WriteCluster := ⟨tickFuture, tickFuture, [], tickInitial, 0⟩

def isComplete (cluster : WriteCluster) : Bool := cluster.complete != tickFuture

/-- `--numIncomplete`, of an unsigned number. -/
def fewerIncomplete (cluster : WriteCluster) : Nat :=
  if cluster.numIncomplete = 0 then 2 ^ 64 - 1 else cluster.numIncomplete - 1

def startWrite (cluster : WriteCluster) (serial : Serial) (start : Nat) (data : Byte) :
    Except CheckerFault WriteCluster :=
  if cluster.isComplete then .error .clusterComplete
  else
    let clusterStart := if cluster.start = tickFuture then start else cluster.start
    if start < clusterStart then .error .fillOrder
    else if cluster.complete ≠ tickFuture ∧ cluster.complete ≤ start then .error .reopened
    else .ok { cluster with
      start := clusterStart
      numIncomplete := cluster.numIncomplete + 1
      complete := tickFuture
      writes := if cluster.writes.any (·.serial == serial) then cluster.writes
        else cluster.writes ++ [⟨serial, start, tickFuture, data⟩] }

def record (serial : Serial) (complete : Nat) (write : Transaction) : Transaction :=
  if write.serial = serial then { write with complete } else write

def completeWrite (cluster : WriteCluster) (serial : Serial) (complete : Nat) :
    Except CheckerFault WriteCluster :=
  match cluster.writes.find? (·.serial == serial) with
  | none => .ok cluster
  | some write =>
    if write.complete ≠ tickFuture then .error .completedTwice
    else
      let completeMax := if cluster.completeMax < complete then complete else cluster.completeMax
      .ok { cluster with
        writes := cluster.writes.map (record serial complete)
        completeMax
        numIncomplete := cluster.fewerIncomplete
        complete := if cluster.fewerIncomplete = 0 then completeMax else cluster.complete }

def abortWrite (cluster : WriteCluster) (serial : Serial) : WriteCluster :=
  if cluster.writes.any (·.serial == serial) then
    let writes := cluster.writes.filter (·.serial != serial)
    { cluster with
      writes
      numIncomplete := cluster.fewerIncomplete
      complete := if cluster.fewerIncomplete = 0 ∧ writes ≠ [] then cluster.completeMax
        else cluster.complete }
  else cluster

end WriteCluster

/-! ### `ByteTracker` -/

structure ByteTracker where
  outstandingReads : OrderedMap Serial Transaction (· < ·)
  readObservations : List Transaction
  writeClusters : List WriteCluster
  lastExpectedData : List Byte

namespace ByteTracker

/-- `ByteTracker()`, with the observation that stands for no observation. -/
def new : ByteTracker := ⟨.empty, [⟨0, tickInitial, tickInitial, 0⟩], [], []⟩

def startRead (tracker : ByteTracker) (serial : Serial) (start : Nat) : ByteTracker :=
  { tracker with
    outstandingReads := (tracker.outstandingReads.insert serial ⟨serial, start, tickFuture, 0⟩).1 }

/-- The loop that goes back as long as the position is late, but not beyond the first one. -/
def scanBack (late : Nat → Bool) : Nat → Nat
  | 0 => 0
  | position + 1 => if late (position + 1) then scanBack late position else position + 1

/-- `lastCompletedTransaction`: the element of the iterator that it returns, and those after it. -/
def lastCompletedTransaction {Element : Type} (complete : Element → Nat) (l : List Element)
    (before : Nat) : Except CheckerFault (Element × List Element) :=
  match l.drop (scanBack (fun position => l[position]?.any fun element => before ≤ complete element)
    (l.length - 1)) with
  | [] => .error .noTransactions
  | it :: rest => .ok (it, rest)

/-- The variables of the scan through the writes. -/
structure Scan where
  found : Bool
  wc_overlap : Bool
  last_obs_valid : Bool
  expectedData : List Byte

/-- One write of the scan, which ends once the data are found. -/
def scanWrite (last_obs : Transaction) (start : Nat) (data : Byte) (scan : Scan)
    (write : Transaction) : Scan :=
  if scan.found then scan
  else if write.complete < last_obs.start then scan
  else if write.data = data then { scan with found := true }
  else if start < write.complete then
    { scan with expectedData := scan.expectedData ++ [write.data] }
  else
    { scan with
      expectedData := scan.expectedData ++ [write.data]
      wc_overlap := false
      last_obs_valid := if last_obs.complete < write.start then false else scan.last_obs_valid }

def scanCluster (last_obs : Transaction) (start : Nat) (data : Byte) (scan : Scan)
    (cluster : WriteCluster) : Scan :=
  if scan.wc_overlap then cluster.writes.foldl (scanWrite last_obs start data) scan else scan

/-- The scan through the clusters, the newest first. -/
def scanClusters (tracker : ByteTracker) (last_obs : Transaction) (start : Nat) (data : Byte) :
    Scan :=
  tracker.writeClusters.reverse.foldl (scanCluster last_obs start data)
    ⟨false, true, last_obs.complete != tickInitial, []⟩

/-- The end of `inExpectedData`: some possible data have been seen, or nothing at all. -/
def noneMatches (last_obs : Transaction) (expectedData : List Byte) :
    Except CheckerFault (Bool × List Byte) :=
  if expectedData = [] then
    if last_obs.complete ≠ tickInitial then .error .noExpectedData else .ok (true, expectedData)
  else .ok (false, expectedData)

/-- The branch of `inExpectedData` without a valid observation: if all clusters overlap the read,
anything goes. -/
def withoutObservation (tracker : ByteTracker) (last_obs : Transaction) (scan : Scan)
    (start complete : Nat) : Except CheckerFault (Bool × List Byte) :=
  match tracker.writeClusters.head?, tracker.writeClusters.getLast? with
  | some first, some last =>
    if scan.wc_overlap then
      if first.start < complete ∧ start < last.complete then .ok (true, scan.expectedData)
      else .error .noOverlap
    else noneMatches last_obs scan.expectedData
  | _, _ => noneMatches last_obs scan.expectedData

/-- `inExpectedData`: the result and the data that were expected. -/
def inExpectedData (tracker : ByteTracker) (start complete : Nat) (data : Byte) :
    Except CheckerFault (Bool × List Byte) := do
  let (last_obs, _) ← lastCompletedTransaction Transaction.complete tracker.readObservations start
  let scan := tracker.scanClusters last_obs start data
  if scan.found then return (true, scan.expectedData)
  else if scan.last_obs_valid then
    if start < last_obs.complete then .error .laterObservation
    else if last_obs.data = data then return (true, scan.expectedData)
    else noneMatches last_obs (scan.expectedData ++ [last_obs.data])
  else tracker.withoutObservation last_obs scan start complete

/-- `before` of `pruneTransactions`: the start of the first outstanding read, or `curTick()`. -/
def pruneTick (tracker : ByteTracker) (curTick : Nat) : Nat :=
  match tracker.outstandingReads.entries with
  | [] => curTick
  | first :: _ => first.2.start

def pruneTransactions (tracker : ByteTracker) (curTick : Nat) :
    Except CheckerFault ByteTracker := do
  let before := tracker.pruneTick curTick
  let (observation, observations) ←
    lastCompletedTransaction Transaction.complete tracker.readObservations before
  let tracker := { tracker with readObservations := observation :: observations }
  if tracker.writeClusters = [] then return tracker
  else
    let (cluster, clusters) ←
      lastCompletedTransaction WriteCluster.complete tracker.writeClusters before
    return { tracker with writeClusters := cluster :: clusters }

/-- `completeRead`, at the tick `curTick()`. -/
def completeRead (tracker : ByteTracker) (curTick : Nat) (serial : Serial) (complete : Nat)
    (data : Byte) : Except CheckerFault (ByteTracker × Bool) :=
  match tracker.outstandingReads.lookup serial with
  | none => .ok (tracker, true)
  | some read => do
    let tracker := { tracker with outstandingReads := tracker.outstandingReads.remove serial }
    let (result, expectedData) ← tracker.inExpectedData read.start complete data
    let observation : Transaction := ⟨serial, read.start, complete, data⟩
    let tracker := { tracker with
      readObservations := tracker.readObservations ++ [observation]
      lastExpectedData := expectedData }
    return (← tracker.pruneTransactions curTick, result)

/-- `getIncompleteWriteCluster`: the clusters before the one that is returned, and that one. -/
def getIncompleteWriteCluster (tracker : ByteTracker) : List WriteCluster × WriteCluster :=
  match tracker.writeClusters.getLast? with
  | some last =>
    if last.isComplete then (tracker.writeClusters, .new)
    else (tracker.writeClusters.dropLast, last)
  | none => ([], .new)

/-- The cluster that was returned is written back. -/
def withCluster (tracker : ByteTracker) (older : List WriteCluster) (cluster : WriteCluster) :
    ByteTracker :=
  { tracker with writeClusters := older ++ [cluster] }

def startWrite (tracker : ByteTracker) (serial : Serial) (start : Nat) (data : Byte) :
    Except CheckerFault ByteTracker := do
  let (older, cluster) := tracker.getIncompleteWriteCluster
  return tracker.withCluster older (← cluster.startWrite serial start data)

/-- `completeWrite`, at the tick `curTick()`. -/
def completeWrite (tracker : ByteTracker) (curTick : Nat) (serial : Serial) (complete : Nat) :
    Except CheckerFault ByteTracker := do
  let (older, cluster) := tracker.getIncompleteWriteCluster
  (tracker.withCluster older (← cluster.completeWrite serial complete)).pruneTransactions curTick

def abortWrite (tracker : ByteTracker) (serial : Serial) : ByteTracker :=
  let (older, cluster) := tracker.getIncompleteWriteCluster
  tracker.withCluster older (cluster.abortWrite serial)

end ByteTracker

/-! ### `MemChecker` -/

/-- A part of the error message: the address, the data received and the data expected. -/
structure ReadFailure where
  addr : Addr
  data : Byte
  expected : List Byte
deriving DecidableEq, Repr

structure MemChecker where
  byte_trackers : Addr → Option ByteTracker
  nextSerial : Serial
  errorMessage : List ReadFailure

namespace MemChecker

def new : MemChecker := ⟨fun _ => none, 0, []⟩

def getByteTracker (checker : MemChecker) (addr : Addr) : ByteTracker :=
  (checker.byte_trackers addr).getD .new

def withTracker (checker : MemChecker) (addr : Addr) (tracker : ByteTracker) : MemChecker :=
  { checker with byte_trackers := Function.update checker.byte_trackers addr (some tracker) }

/-- One byte of a transaction, with what the loop collects. -/
def byteStep {Output : Type}
    (step : Nat → ByteTracker → Output → Except CheckerFault (ByteTracker × Output)) (addr : Addr)
    (state : MemChecker × Output) (i : Nat) : Except CheckerFault (MemChecker × Output) := do
  let place := addr + BitVec.ofNat 64 i
  let (tracker, output) ← step i (state.1.getByteTracker place) state.2
  return (state.1.withTracker place tracker, output)

/-- The loop over the bytes of a transaction. -/
def eachByte {Output : Type}
    (step : Nat → ByteTracker → Output → Except CheckerFault (ByteTracker × Output)) (addr : Addr)
    (size : Nat) (checker : MemChecker) (output : Output) :
    Except CheckerFault (MemChecker × Output) :=
  (List.range size).foldlM (byteStep step addr) (checker, output)

/-- The serial it returns is `nextSerial`. -/
def startRead (checker : MemChecker) (start : Nat) (addr : Addr) (size : BitVec 64) :
    Except CheckerFault MemChecker := do
  let (checker, _) ← checker.eachByte
    (fun _ tracker _ => .ok (tracker.startRead checker.nextSerial start, ())) addr size.toNat ()
  return { checker with nextSerial := checker.nextSerial + 1 }

/-- The serial it returns is `nextSerial`. -/
def startWrite (checker : MemChecker) (start : Nat) (addr : Addr) (size : BitVec 64)
    (data : Nat → Byte) : Except CheckerFault MemChecker := do
  let (checker, _) ← checker.eachByte
    (fun i tracker _ => return (← tracker.startWrite checker.nextSerial start (data i), ()))
    addr size.toNat ()
  return { checker with nextSerial := checker.nextSerial + 1 }

def completeReadByte (curTick : Nat) (serial : Serial) (complete : Nat) (addr : Addr)
    (data : Nat → Byte) (i : Nat) (tracker : ByteTracker) (failures : List ReadFailure) :
    Except CheckerFault (ByteTracker × List ReadFailure) := do
  let (tracker, result) ← tracker.completeRead curTick serial complete (data i)
  return (tracker, if result then failures
    else failures ++ [⟨addr + BitVec.ofNat 64 i, data i, tracker.lastExpectedData⟩])

/-- `completeRead`, at the tick `curTick()`. The error message stays if there is no failure. -/
def completeRead (checker : MemChecker) (curTick : Nat) (serial : Serial) (complete : Nat)
    (addr : Addr) (size : BitVec 64) (data : Nat → Byte) :
    Except CheckerFault (MemChecker × Bool) := do
  let (checker, failures) ← checker.eachByte
    (completeReadByte curTick serial complete addr data) addr size.toNat []
  return ({ checker with
    errorMessage := if failures = [] then checker.errorMessage else failures }, failures = [])

/-- `completeWrite`, at the tick `curTick()`. -/
def completeWrite (checker : MemChecker) (curTick : Nat) (serial : Serial) (complete : Nat)
    (addr : Addr) (size : BitVec 64) : Except CheckerFault MemChecker := do
  let (checker, _) ← checker.eachByte
    (fun _ tracker _ => return (← tracker.completeWrite curTick serial complete, ()))
    addr size.toNat ()
  return checker

def abortWrite (checker : MemChecker) (serial : Serial) (addr : Addr) (size : BitVec 64) :
    Except CheckerFault MemChecker := do
  let (checker, _) ← checker.eachByte
    (fun _ tracker _ => .ok (tracker.abortWrite serial, ())) addr size.toNat ()
  return checker

/-- `reset()`. -/
def reset (checker : MemChecker) : MemChecker := { checker with byte_trackers := fun _ => none }

/-- `reset(addr, size)`. -/
def resetRange (checker : MemChecker) (addr : Addr) (size : BitVec 64) : MemChecker :=
  { checker with
    byte_trackers := (List.range size.toNat).foldl
      (fun trackers i => Function.update trackers (addr + BitVec.ofNat 64 i) none)
      checker.byte_trackers }

end MemChecker

end Gem5.Mem
