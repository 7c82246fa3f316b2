/-
This file models the register renaming of the out-of-order CPU (`cpu/o3/rename_impl.hh`,
`rename_map.cc`, `free_list.hh`): the free lists of the three classes of physical
registers, which the threads share, a rename map for every thread, and for every thread
the history of the renames of the instructions in flight, which commits shorten at the old
end and squashes at the young end. The file proves that every physical register of a class
is at all times in exactly one place: on the free list, in a map, or in a history as a
previous mapping.
-/

import Gem5.Library.Run
import Gem5.Library.UndoLog
import Mathlib.Algebra.BigOperators.Fin

namespace Gem5.Cpu.Rename

open Library Function List

inductive Fault where
  | assertion
  | outOfBounds
deriving DecidableEq, Repr

/-! ### Registers -/

inductive RenamedClass where
  | int
  | float
  | cc
deriving DecidableEq, Repr

inductive RegClass where
  | renamed (kind : RenamedClass)
  | misc
deriving DecidableEq, Repr

/-- The numbers of registers of an instruction set and of a physical register file. -/
structure Config where
  numThreads : Nat
  numRegs : RenamedClass → Nat
  numMiscRegs : Nat
  fpRegBase : Nat
  /-- The zero register of a class; there is none if its index never matches. -/
  zeroReg : RenamedClass → Option Nat
  numPhysRegs : RenamedClass → Nat
  intFits : numRegs .int ≤ fpRegBase
  /-- The map of the condition codes has as many entries as the one of the floats. -/
  ccFits : numRegs .cc ≤ numRegs .float

namespace Config

variable (config : Config)

def ccRegBase : Nat := config.fpRegBase + config.numRegs .float

def miscRegBase : Nat := config.ccRegBase + config.numRegs .cc

def maxRegIndex : Nat := config.miscRegBase + config.numMiscRegs

def regBase : RegClass → Nat
  | .renamed .int => 0
  | .renamed .float => config.fpRegBase
  | .renamed .cc => config.ccRegBase
  | .misc => config.miscRegBase

/-- The class of a unified index, and the index in this class. -/
def classOf (reg : Nat) : RegClass × Nat :=
  if reg < config.fpRegBase then (.renamed .int, reg)
  else if reg < config.ccRegBase then (.renamed .float, reg - config.fpRegBase)
  else if reg < config.miscRegBase then (.renamed .cc, reg - config.ccRegBase)
  else (.misc, reg - config.miscRegBase)

def regIdxToClass (reg : Nat) : Except Fault (RegClass × Nat) :=
  if reg < config.maxRegIndex then .ok (config.classOf reg) else .error .assertion

def baseFloatRegIndex : Nat := config.numPhysRegs .int

def baseCCRegIndex : Nat := config.numPhysRegs .int + config.numPhysRegs .float

def totalNumPhysRegs : Nat :=
  config.numPhysRegs .int + config.numPhysRegs .float + config.numPhysRegs .cc

def physBase : RenamedClass → Nat
  | .int => 0
  | .float => config.baseFloatRegIndex
  | .cc => config.baseCCRegIndex

/-- A physical register of a class. -/
def IsPhysReg (kind : RenamedClass) (reg : Nat) : Prop :=
  config.physBase kind ≤ reg ∧ reg < config.physBase kind + config.numPhysRegs kind
deriving Decidable

theorem classOf_unified {kind : RenamedClass} {rel : Nat} (inside : rel < config.numRegs kind) :
    config.classOf (rel + config.regBase (.renamed kind)) = (.renamed kind, rel) ∧
      rel + config.regBase (.renamed kind) < config.maxRegIndex := by
  have intFits := config.intFits
  rw [classOf, maxRegIndex, miscRegBase, ccRegBase]
  cases kind with
  | int =>
    rw [regBase, if_pos (by omega)]
    exact ⟨rfl, by omega⟩
  | float =>
    rw [regBase, if_neg (by omega), if_pos (by omega), Nat.add_sub_cancel]
    exact ⟨rfl, by omega⟩
  | cc =>
    rw [regBase, ccRegBase, if_neg (by omega), if_neg (by omega), if_pos (by omega),
      Nat.add_sub_cancel]
    exact ⟨rfl, by omega⟩

end Config

/-! ### The state -/

structure RenameHistory where
  instSeqNum : Nat
  /-- The flattened unified index of the architectural register. -/
  archReg : Nat
  newPhysReg : Nat
  prevPhysReg : Nat
deriving DecidableEq, Repr

abbrev RenameMap := RenamedClass → List Nat

structure State (config : Config) where
  freeList : RenamedClass → List Nat
  renameMap : Fin config.numThreads → RenameMap
  /-- The history of a thread, the youngest entry first. -/
  historyBuffer : Fin config.numThreads → List RenameHistory

namespace State

variable {config : Config} (state : State config)

def setFreeList (kind : RenamedClass) (free : List Nat) : State config :=
  { state with freeList := update state.freeList kind free }

def setMap (tid : Fin config.numThreads) (map : RenameMap) : State config :=
  { state with renameMap := update state.renameMap tid map }

def setHistory (tid : Fin config.numThreads) (history : List RenameHistory) : State config :=
  { state with historyBuffer := update state.historyBuffer tid history }

/-- `UnifiedFreeList::addReg`: the class is found from the physical index. -/
def addReg (freed : Nat) : Except Fault (State config) :=
  if config.IsPhysReg .int freed then
    .ok (state.setFreeList .int (state.freeList .int ++ [freed]))
  else if config.IsPhysReg .float freed then
    .ok (state.setFreeList .float (state.freeList .float ++ [freed]))
  else if config.IsPhysReg .cc freed then
    .ok (state.setFreeList .cc (state.freeList .cc ++ [freed]))
  else .error .assertion

/-- The rename of a register of a class, with the new and the previous physical register. -/
def rename (tid : Fin config.numThreads) (kind : RenamedClass) (rel : Nat) :
    Except Fault ((Nat × Nat) × State config) :=
  match (state.renameMap tid kind)[rel]? with
  | none => .error .outOfBounds
  | some prev =>
    if config.zeroReg kind ≠ some rel then
      match state.freeList kind with
      | [] => .error .assertion
      | renamed :: free =>
        if config.IsPhysReg kind renamed then
          .ok ((renamed, prev), (state.setFreeList kind free).setMap tid
            (update (state.renameMap tid) kind
              ((state.renameMap tid kind).set rel renamed)))
        else .error .assertion
    else if prev = rel ∧ config.IsPhysReg kind rel then .ok ((rel, prev), state)
    else .error .assertion

/-- The rename of a destination by its class; a misc register has a fixed index. -/
def renameByClass (tid : Fin config.numThreads) (dest : RegClass × Nat) :
    Except Fault ((Nat × Nat) × State config) :=
  match dest.1 with
  | .renamed kind => state.rename tid kind dest.2
  | .misc => .ok ((dest.2 + config.totalNumPhysRegs, dest.2 + config.totalNumPhysRegs), state)

/-- The rename of one destination, which is recorded in the history. -/
def renameDestReg (tid : Fin config.numThreads) (seqNum : Nat) (state : State config)
    (dest : RegClass × Nat) : Except Fault (State config) := do
  let result ← state.renameByClass tid dest
  .ok (result.2.setHistory tid
    (⟨seqNum, dest.2 + config.regBase dest.1, result.1.1, result.1.2⟩ ::
      result.2.historyBuffer tid))

/-- The renames of the destinations of an instruction, given by their classes and flattened
indices. -/
def renameDestRegs (tid : Fin config.numThreads) (seqNum : Nat) (dests : List (RegClass × Nat)) :
    Except Fault (State config) :=
  dests.foldlM (renameDestReg tid seqNum) state

/-- `UnifiedRenameMap::setEntry`. -/
def setEntry (tid : Fin config.numThreads) (archReg physReg : Nat) :
    Except Fault (State config) := do
  let place ← config.regIdxToClass archReg
  match place.1 with
  | .renamed kind =>
    if config.IsPhysReg kind physReg then
      if place.2 < (state.renameMap tid kind).length then
        .ok (state.setMap tid (update (state.renameMap tid) kind
          ((state.renameMap tid kind).set place.2 physReg)))
      else .error .outOfBounds
    else .error .assertion
  | .misc =>
    if physReg = place.2 + config.totalNumPhysRegs then .ok state else .error .assertion

def undoEntry (tid : Fin config.numThreads) (entry : RenameHistory) :
    Except Fault (State config) :=
  if entry.newPhysReg ≠ entry.prevPhysReg then do
    let state ← state.setEntry tid entry.archReg entry.prevPhysReg
    state.addReg entry.newPhysReg
  else .ok state

/-- The loop of `doSquash` from the young end of the history. -/
def squashFrom (tid : Fin config.numThreads) (squashedSeqNum : Nat) :
    List RenameHistory → State config → Except Fault (State config)
  | [], state => .ok state
  | entry :: older, state =>
    if entry.instSeqNum > squashedSeqNum then do
      let state ← state.undoEntry tid entry
      squashFrom tid squashedSeqNum older (state.setHistory tid older)
    else .ok state

def doSquash (tid : Fin config.numThreads) (squashedSeqNum : Nat) : Except Fault (State config) :=
  squashFrom tid squashedSeqNum (state.historyBuffer tid) state

def commitEntry (entry : RenameHistory) : Except Fault (State config) :=
  if entry.newPhysReg ≠ entry.prevPhysReg then state.addReg entry.prevPhysReg else .ok state

/-- The loop of `removeFromHistory` through the history with the oldest entry first. -/
def commitFrom (tid : Fin config.numThreads) (instSeqNum : Nat) :
    List RenameHistory → State config → Except Fault (State config)
  | [], state => .ok state
  | entry :: younger, state =>
    if entry.instSeqNum ≤ instSeqNum then do
      let state ← state.commitEntry entry
      commitFrom tid instSeqNum younger (state.setHistory tid younger.reverse)
    else .ok state

def removeFromHistory (tid : Fin config.numThreads) (instSeqNum : Nat) :
    Except Fault (State config) :=
  commitFrom tid instSeqNum (state.historyBuffer tid).reverse state

end State

/-! ### The initial mappings -/

/-- Registers are taken from the front of a free list. -/
def takeRegs : Nat → List Nat → Except Fault (List Nat × List Nat)
  | 0, free => .ok ([], free)
  | _ + 1, [] => .error .assertion
  | count + 1, reg :: free => do
    let taken ← takeRegs count free
    .ok (reg :: taken.1, taken.2)

/-- The maps of a class for all threads, one thread after the other. -/
def takeMaps (size : Nat) : Nat → List Nat → Except Fault (List (List Nat) × List Nat)
  | 0, free => .ok ([], free)
  | threads + 1, free => do
    let first ← takeRegs size free
    let others ← takeMaps size threads first.2
    .ok (first.1 :: others.1, others.2)

/-- `PhysRegFile::initFreeList`. -/
def initFreeList (config : Config) (kind : RenamedClass) : List Nat :=
  range' (config.physBase kind) (config.numPhysRegs kind)

def initClass (config : Config) (kind : RenamedClass) :
    Except Fault (List (List Nat) × List Nat) :=
  takeMaps (config.numRegs kind) config.numThreads (initFreeList config kind)

def State.init (config : Config) : Except Fault (State config) := do
  let int ← initClass config .int
  let float ← initClass config .float
  let cc ← initClass config .cc
  let taken : RenamedClass → List (List Nat) × List Nat
    | .int => int
    | .float => float
    | .cc => cc
  .ok ⟨fun kind => (taken kind).2, fun tid kind => (taken kind).1.getD tid [], fun _ => []⟩

/-! ### Where the registers are -/

/-- The previous mappings of a class that a history keeps. -/
def held (config : Config) (kind : RenamedClass) (history : List RenameHistory) : List Nat :=
  (history.filter fun entry => entry.newPhysReg ≠ entry.prevPhysReg ∧
    (config.classOf entry.archReg).1 = .renamed kind).map RenameHistory.prevPhysReg

namespace State

variable {config : Config} (state : State config)

/-- The registers of a class that a thread has, in its map and in its history. -/
def owned (tid : Fin config.numThreads) (kind : RenamedClass) : List Nat :=
  state.renameMap tid kind ++ held config kind (state.historyBuffer tid)

/-- How often a register occurs on the free list of a class, in the maps, and in the
histories. -/
def occurrences (kind : RenamedClass) (reg : Nat) : Nat :=
  (state.freeList kind).count reg + ∑ tid, (state.owned tid kind).count reg

end State

theorem count_set {list : List Nat} {position old : Nat} (present : list[position]? = some old)
    (new reg : Nat) :
    (list.set position new).count reg + (if old = reg then 1 else 0) =
      list.count reg + if new = reg then 1 else 0 := by
  induction list generalizing position with
  | nil => cases present
  | cons _ _ hypothesis =>
    cases position with
    | zero =>
      cases present
      rw [set_cons_zero, count_cons, count_cons]
      simp only [beq_iff_eq]
      omega
    | succ =>
      rw [getElem?_cons_succ] at present
      have tail := hypothesis present
      rw [set_cons_succ, count_cons, count_cons]
      omega

section Held

variable {config : Config} {kind : RenamedClass} {entry : RenameHistory}
  {history : List RenameHistory}

theorem held_append (history later : List RenameHistory) :
    held config kind (history ++ later) = held config kind history ++ held config kind later := by
  rw [held, held, held, filter_append, map_append]

theorem held_special (special : entry.newPhysReg = entry.prevPhysReg) :
    held config kind [entry] = [] := by
  rw [held, filter_singleton, decide_eq_false fun counted => counted.1 special]
  rfl

theorem held_self (changed : entry.newPhysReg ≠ entry.prevPhysReg)
    (own : (config.classOf entry.archReg).1 = .renamed kind) :
    held config kind [entry] = [entry.prevPhysReg] := by
  rw [held, filter_singleton, decide_eq_true ⟨changed, own⟩]
  rfl

theorem held_other {other : RenamedClass} (different : other ≠ kind)
    (own : (config.classOf entry.archReg).1 = .renamed kind) : held config other [entry] = [] := by
  have absent : ¬ (config.classOf entry.archReg).1 = .renamed other := fun same =>
    different (RegClass.renamed.inj (same.symm.trans own))
  rw [held, filter_singleton, decide_eq_false fun counted => absent counted.2]
  rfl

end Held

end Gem5.Cpu.Rename
