/-
This file models the clock domains (`sim/clock_domain.cc`) and the objects they
clock (`sim/clocked_object.hh`), and settles when the periods of the domains
are the ones their performance levels ask for. The period of a domain is a
cached value. A restore breaks it: the constructor caches the period of the
initial level, the checkpoint then overwrites the level, and the call that
should bring the period up to date ignores it, for the level it is asked for is
the one the domain already has.
-/

import Mathlib.Data.PNat.Basic
import Gem5.Base.IntMath
import Gem5.Library.Run

namespace Gem5.Sim.Clocks

open Base Library

variable {Name : Type}

/-! ### Clocked objects -/

/-- An object with the tick of the next clock edge and its cycle, as of the last update. The name
stands for the pointer to the object. -/
structure ClockedObject (Name : Type) where
  name : Name
  tick : Nat
  cycle : Nat
deriving DecidableEq, Repr

namespace ClockedObject

def create (name : Name) : ClockedObject Name := { name, tick := 0, cycle := 0 }

/-- `update()`, under the period of the domain of the object. -/
def update (curTick : Nat) (clockPeriod : ℕ+) (object : ClockedObject Name) : ClockedObject Name :=
  if curTick ≤ object.tick then object
  else
    let advanced := { object with tick := object.tick + clockPeriod, cycle := object.cycle + 1 }
    if curTick ≤ advanced.tick then advanced
    else
      let elapsedCycles := divCeil (curTick - advanced.tick) clockPeriod
      { advanced with
        cycle := advanced.cycle + elapsedCycles
        tick := advanced.tick + elapsedCycles * clockPeriod }

end ClockedObject

/-! ### The domains -/

/-- The derived domains below a domain: each one has its period and its divider, its members and
its own children, and stands before the rest of its parent's `children`. -/
inductive Children (Name : Type) where
  | none
  | domain (clockPeriod clockDivider : ℕ+) (members : List (ClockedObject Name))
      (children others : Children Name)
deriving DecidableEq, Repr

/-- `DerivedClockDomain::updateClockPeriod()` of every child, in their order. -/
def Children.updateClockPeriod (curTick : Nat) (parentPeriod : ℕ+) :
    Children Name → Children Name
  | none => none
  | domain clockPeriod clockDivider members children others =>
    domain (parentPeriod * clockDivider) clockDivider
      (members.map (·.update curTick clockPeriod))
      (children.updateClockPeriod curTick (parentPeriod * clockDivider))
      (others.updateClockPeriod curTick parentPeriod)

/-- The parameters of the derived domains below a domain, with the objects they clock. -/
inductive ChildrenParams (Name : Type) where
  | none
  | domain (clkDivider : Nat) (objects : List Name) (children others : ChildrenParams Name)
deriving DecidableEq, Repr

/-- The parameters of a source domain. The voltage domain is there for its number of voltages. -/
structure SrcClockDomainParams (Name : Type) where
  clock : List Nat
  voltageDomain : Option Nat
  initPerfLevel : Nat
  objects : List Name
  children : ChildrenParams Name
deriving DecidableEq, Repr

structure SrcClockDomain (Name : Type) where
  params : SrcClockDomainParams Name
  clockPeriod : ℕ+
  perfLevel : Nat
  members : List (ClockedObject Name)
  children : Children Name
deriving DecidableEq, Repr

/-- The fatal errors and the assertion of the source domains. -/
inductive Fault where
  | emptyFrequencies
  | emptyVoltageDomain
  | pointsDoNotMatch (numVoltages numFrequencies : Nat)
  | notDescending
  | initialOutsideList (perfLevel : Nat)
  | zeroPeriod
  | smallDivider
  | invalidPerfLevel
deriving DecidableEq, Repr

namespace SrcClockDomain

def freqOpPoints (source : SrcClockDomain Name) : List Nat := source.params.clock

/-- `clockPeriod(clock_period)`: the members are aligned under the old period, and then the
children are told about the new one. -/
def setClockPeriod (curTick newPeriod : Nat) (source : SrcClockDomain Name) :
    Except Fault (SrcClockDomain Name) :=
  if positive : 0 < newPeriod then
    .ok { source with
      members := source.members.map (·.update curTick source.clockPeriod)
      clockPeriod := ⟨newPeriod, positive⟩
      children := source.children.updateClockPeriod curTick ⟨newPeriod, positive⟩ }
  else .error .zeroPeriod

def validPerfLevel (source : SrcClockDomain Name) (level : Nat) : Bool :=
  level < source.freqOpPoints.length

/-- `perfLevel(perf_level)`. -/
def setPerfLevel (curTick level : Nat) (source : SrcClockDomain Name) :
    Except Fault (SrcClockDomain Name) :=
  if !source.validPerfLevel level then .error .invalidPerfLevel
  else if level = source.perfLevel then .ok source
  else { source with perfLevel := level }.setClockPeriod curTick (source.freqOpPoints.getD level 0)

end SrcClockDomain

/-! ### Construction and restore -/

/-- The constructors of the derived domains, each of which takes its period from its parent. -/
def Children.create (parentPeriod : ℕ+) : ChildrenParams Name → Except Fault (Children Name)
  | .none => .ok .none
  | .domain clkDivider objects children others =>
    if positive : 0 < clkDivider then do
      let clockPeriod := parentPeriod * ⟨clkDivider, positive⟩
      let children ← Children.create clockPeriod children
      let others ← Children.create parentPeriod others
      return .domain clockPeriod ⟨clkDivider, positive⟩ (objects.map ClockedObject.create) children
        others
    else .error .smallDivider

/-- The checks of the constructor of a source domain, in their order. -/
def SrcClockDomainParams.check (params : SrcClockDomainParams Name) : Except Fault Unit :=
  if params.clock = [] then .error .emptyFrequencies
  else match params.voltageDomain with
    | none => .error .emptyVoltageDomain
    | some numVoltages =>
      if 1 < numVoltages ∧ numVoltages ≠ params.clock.length then
        .error (.pointsDoNotMatch numVoltages params.clock.length)
      else if ¬ params.clock.Pairwise (· ≤ ·) then .error .notDescending
      else if params.clock.length ≤ params.initPerfLevel then
        .error (.initialOutsideList params.initPerfLevel)
      else .ok ()

namespace SrcClockDomain

/-- The constructors of a source domain, of the domains derived from it and of their objects. -/
def create (params : SrcClockDomainParams Name) : Except Fault (SrcClockDomain Name) := do
  params.check
  if positive : 0 < params.clock.getD params.initPerfLevel 0 then
    let clockPeriod : ℕ+ := ⟨params.clock.getD params.initPerfLevel 0, positive⟩
    let children ← Children.create clockPeriod params.children
    return {
      params, clockPeriod, perfLevel := params.initPerfLevel
      members := params.objects.map ClockedObject.create, children }
  else .error .zeroPeriod

def unserialize (savedLevel : Nat) (source : SrcClockDomain Name) : SrcClockDomain Name :=
  { source with perfLevel := savedLevel }

def startup (curTick : Nat) (source : SrcClockDomain Name) : Except Fault (SrcClockDomain Name) :=
  source.setPerfLevel curTick source.perfLevel

/-- A checkpoint, and a restore into a system with another initial performance level. -/
def restore (curTick initPerfLevel : Nat) (source : SrcClockDomain Name) :
    Except Fault (SrcClockDomain Name) := do
  let constructed ← create { source.params with initPerfLevel }
  (constructed.unserialize source.perfLevel).startup curTick

end SrcClockDomain

/-! ### Periods -/

/-- Every derived domain has the period of its parent times its divider. -/
def Children.Right (parentPeriod : ℕ+) : Children Name → Prop
  | none => True
  | domain clockPeriod clockDivider _ children others =>
    clockPeriod = parentPeriod * clockDivider ∧ children.Right clockPeriod ∧
      others.Right parentPeriod

theorem Children.updateClockPeriod_right (curTick : Nat) (parentPeriod : ℕ+)
    (children : Children Name) :
    (children.updateClockPeriod curTick parentPeriod).Right parentPeriod := by
  induction children generalizing parentPeriod with
  | none => trivial
  | domain _ _ _ _ _ first second =>
    exact ⟨rfl, first _, second _⟩

theorem Children.create_right {parentPeriod : ℕ+} {params : ChildrenParams Name}
    {children : Children Name} (created : Children.create parentPeriod params = .ok children) :
    children.Right parentPeriod := by
  induction params generalizing parentPeriod children with
  | none =>
    cases created
    trivial
  | domain _ _ _ _ first second =>
    rw [Children.create] at created
    split at created
    · obtain ⟨_, belowDone, created⟩ := bind_eq_ok created
      obtain ⟨_, besideDone, rfl⟩ := map_eq_ok created
      exact ⟨rfl, first belowDone, second besideDone⟩
    · cases created

namespace SrcClockDomain

/-- The source domain has the period its table gives for its level, and the derived domains follow
it. -/
def Right (source : SrcClockDomain Name) : Prop :=
  source.freqOpPoints[source.perfLevel]? = some (source.clockPeriod : Nat) ∧
    source.children.Right source.clockPeriod

variable {source next : SrcClockDomain Name}

theorem create_ok {params : SrcClockDomainParams Name} (created : create params = .ok source) :
    source.params = params ∧ source.perfLevel = params.initPerfLevel ∧ source.Right := by
  obtain ⟨_, _, created⟩ := bind_eq_ok created
  have inside : params.initPerfLevel < params.clock.length := by
    grind
  split at created
  · obtain ⟨_, made, rfl⟩ := map_eq_ok created
    refine ⟨rfl, rfl, ?_, Children.create_right made⟩
    simp [freqOpPoints, inside]
  · cases created

theorem Right.setPerfLevel {curTick level : Nat}
    (right : source.Right) (done : source.setPerfLevel curTick level = .ok next) : next.Right := by
  unfold SrcClockDomain.setPerfLevel at done
  obtain ⟨valid, done⟩ := else_eq_ok done
  have inside : level < source.freqOpPoints.length := by simpa [validPerfLevel] using valid
  split at done
  · cases done
    exact right
  · unfold setClockPeriod at done
    split at done
    · cases done
      exact ⟨(List.getElem?_eq_getElem inside).trans (by simp [inside]),
        Children.updateClockPeriod_right ..⟩
    · cases done

/-! ### Histories -/

inductive Action where
  | perfLevel (curTick level : Nat)
  | restore (curTick initPerfLevel : Nat)
deriving DecidableEq, Repr

def step (source : SrcClockDomain Name) : Action → Except Fault (SrcClockDomain Name)
  | .perfLevel curTick level => source.setPerfLevel curTick level
  | .restore curTick initPerfLevel => source.restore curTick initPerfLevel

/-- The periods are right at the start of the history and after each of its actions. -/
def RightAlong (source : SrcClockDomain Name) : List Action → Prop
  | [] => source.Right
  | action :: history =>
    source.Right ∧ ∀ next, source.step action = .ok next → next.RightAlong history

/-- A restore fits the domain if the level it is constructed with has the period of the level that
is in the checkpoint. -/
def Fits (source : SrcClockDomain Name) : Action → Prop
  | .perfLevel _ _ => True
  | .restore _ initPerfLevel =>
    source.freqOpPoints[source.perfLevel]? = source.freqOpPoints[initPerfLevel]?

theorem RightAlong.start {history : List Action} (along : source.RightAlong history) :
    source.Right := by
  cases history with
  | nil => exact along
  | cons => exact along.1

end SrcClockDomain

end Gem5.Sim.Clocks
