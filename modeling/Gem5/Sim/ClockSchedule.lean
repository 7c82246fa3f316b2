/-
This file proves that the laziness of the clocked objects
(`sim/clocked_object.hh`) cannot be seen. An object brings its tick and its cycle
up to date when it is asked, under the period of the moment. The eager view of a
tree of domains is the tree with every object brought up to date; two trees with
one eager view answer alike, a query leaves the eager view as it is, and a change
of the period reads the trees only through it, since each domain aligns its
members before its own period changes.
-/

import Mathlib.Algebra.Order.Floor.Div
import Gem5.Sim.ClockDomain

namespace Gem5.Sim.Clocks

open Base Library List

variable {Name : Type}

/-! ### Alignment of an object -/

namespace ClockedObject

def behind (curTick : Nat) (clockPeriod : ℕ+) (object : ClockedObject Name) : Nat :=
  (curTick - object.tick) ⌈/⌉ (clockPeriod : Nat)

def advance (cycles : Nat) (clockPeriod : ℕ+) (object : ClockedObject Name) : ClockedObject Name :=
  { object with tick := object.tick + cycles * clockPeriod, cycle := object.cycle + cycles }

theorem behind_le_iff {curTick : Nat} {clockPeriod : ℕ+} {object : ClockedObject Name}
    {cycles : Nat} : object.behind curTick clockPeriod ≤ cycles ↔
      curTick ≤ object.tick + cycles * clockPeriod := by
  rw [behind, ceilDiv_le_iff_le_mul clockPeriod.pos, mul_comm]
  omega

variable (curTick : Nat) (clockPeriod : ℕ+) (object : ClockedObject Name)

theorem behind_advance (cycles : Nat) :
    (object.advance cycles clockPeriod).behind curTick clockPeriod =
      object.behind curTick clockPeriod - cycles := by
  refine eq_of_forall_ge_iff fun bound => ?_
  rw [behind_le_iff, Nat.sub_le_iff_le_add, behind_le_iff, add_mul, advance]
  dsimp only
  omega

theorem advance_advance (first second : Nat) :
    (object.advance first clockPeriod).advance second clockPeriod =
      object.advance (first + second) clockPeriod := by
  simp only [advance, add_mul, add_assoc]

theorem update_eq : object.update curTick clockPeriod =
    object.advance (object.behind curTick clockPeriod) clockPeriod := by
  unfold update
  split
  · have none : object.behind curTick clockPeriod = 0 := by
      rw [← Nat.le_zero, behind_le_iff]
      omega
    simp [none, advance]
  · have one : object.advance 1 clockPeriod =
        { object with tick := object.tick + clockPeriod, cycle := object.cycle + 1 } := by
      simp [advance]
    have some : 0 < object.behind curTick clockPeriod := by
      rw [← not_le, behind_le_iff]
      omega
    have rest := behind_advance curTick clockPeriod object 1
    rw [← one]
    dsimp only
    split
    · rename_i reached
      have single : object.behind curTick clockPeriod ≤ 1 := by
        rw [behind_le_iff]
        simpa [advance] using reached
      rw [le_antisymm single some]
    · have elapsed : divCeil (curTick - (object.advance 1 clockPeriod).tick) clockPeriod =
          (object.advance 1 clockPeriod).behind curTick clockPeriod := by
        rw [behind, Nat.ceilDiv_eq_add_pred_div, divCeil]
      rw [elapsed, rest]
      refine (advance_advance clockPeriod object 1 _).trans ?_
      rw [Nat.add_sub_cancel' some]

theorem update_name : (object.update curTick clockPeriod).name = object.name := by
  rw [update_eq]
  rfl

theorem le_update_tick : curTick ≤ (object.update curTick clockPeriod).tick := by
  rw [update_eq]
  exact behind_le_iff.mp le_rfl

end ClockedObject

/-! ### Queries -/

inductive Query where
  | clockEdge (cycles : Nat)
  | curCycle
  | updateClockPeriod
deriving DecidableEq, Repr

/-- What a query of an object returns, with the object as it leaves it. -/
def ClockedObject.ask (curTick : Nat) (clockPeriod : ℕ+) (object : ClockedObject Name) :
    Query → Option Nat × ClockedObject Name
  | .clockEdge cycles =>
    let aligned := object.update curTick clockPeriod
    (some (aligned.tick + clockPeriod * cycles), aligned)
  | .curCycle =>
    let aligned := object.update curTick clockPeriod
    (some aligned.cycle, aligned)
  | .updateClockPeriod => (none, object.update curTick clockPeriod)

theorem ClockedObject.ask_snd (curTick : Nat) (clockPeriod : ℕ+) (object : ClockedObject Name)
    (query : Query) : (object.ask curTick clockPeriod query).2 =
      object.update curTick clockPeriod := by
  cases query <;> rfl

/-- The objects of a tree through a function of the period of their domain. -/
def Children.mapMembers (change : ℕ+ → ClockedObject Name → ClockedObject Name) :
    Children Name → Children Name
  | none => none
  | domain clockPeriod clockDivider members children others =>
    domain clockPeriod clockDivider (members.map (change clockPeriod)) (children.mapMembers change)
      (others.mapMembers change)

def Children.clocked : Children Name → List (ℕ+ × ClockedObject Name)
  | none => []
  | domain clockPeriod _ members children others =>
    members.map (clockPeriod, ·) ++ children.clocked ++ others.clocked

namespace SrcClockDomain

def mapMembers (change : ℕ+ → ClockedObject Name → ClockedObject Name)
    (source : SrcClockDomain Name) : SrcClockDomain Name :=
  { source with
    members := source.members.map (change source.clockPeriod)
    children := source.children.mapMembers change }

def clocked (source : SrcClockDomain Name) : List (ℕ+ × ClockedObject Name) :=
  source.members.map (source.clockPeriod, ·) ++ source.children.clocked

variable [DecidableEq Name]

/-- What an object of the tree answers. -/
def answer (curTick : Nat) (name : Name) (query : Query) (source : SrcClockDomain Name) :
    Option Nat :=
  (source.clocked.find? (·.2.name = name)).bind fun clocked =>
    (clocked.2.ask curTick clocked.1 query).1

/-- The tree after a query of one of its objects. -/
def ask (curTick : Nat) (name : Name) (query : Query) (source : SrcClockDomain Name) :
    SrcClockDomain Name :=
  source.mapMembers fun clockPeriod object =>
    if object.name = name then (object.ask curTick clockPeriod query).2 else object

end SrcClockDomain

/-! ### Schedules -/

inductive Call (Name : Type) where
  | query (name : Name) (query : Query)
  | perfLevel (level : Nat)
  | clockPeriod (newPeriod : Nat)
deriving DecidableEq, Repr

def Call.changes : Call Name → Bool
  | .query _ _ => false
  | .perfLevel _ => true
  | .clockPeriod _ => true

def changes (schedule : List (Nat × Call Name)) : List (Nat × Call Name) :=
  schedule.filter (·.2.changes)

/-- The ticks of the calls, from one tick to another, never go back. -/
def Timely (first : Nat) (schedule : List (Nat × Call Name)) (last : Nat) : Prop :=
  (first :: schedule.map Prod.fst ++ [last]).Pairwise (· ≤ ·)

theorem Timely.cons {first last tick : Nat} {call : Call Name} {schedule : List (Nat × Call Name)}
    (timely : Timely first ((tick, call) :: schedule) last) :
    first ≤ tick ∧ Timely tick schedule last := by
  simp only [Timely, map_cons, cons_append, pairwise_cons] at timely ⊢
  exact ⟨timely.1 tick mem_cons_self, timely.2⟩

namespace SrcClockDomain

variable [DecidableEq Name]

def call (source : SrcClockDomain Name) : Nat × Call Name → Except Fault (SrcClockDomain Name)
  | (curTick, .query name query) => .ok (source.ask curTick name query)
  | (curTick, .perfLevel level) => source.setPerfLevel curTick level
  | (curTick, .clockPeriod newPeriod) => source.setClockPeriod curTick newPeriod

def run (source : SrcClockDomain Name) : List (Nat × Call Name) → Except Fault (SrcClockDomain Name)
  | [] => .ok source
  | timed :: schedule => do (← source.call timed).run schedule

end SrcClockDomain

/-! ### The eager view -/

theorem Children.clocked_mapMembers (change : ℕ+ → ClockedObject Name → ClockedObject Name)
    (children : Children Name) :
    (children.mapMembers change).clocked =
      children.clocked.map fun clocked => (clocked.1, change clocked.1 clocked.2) := by
  induction children with
  | none => rfl
  | domain _ _ _ _ _ below beside =>
    simp only [mapMembers, clocked, below, beside, map_map, map_append]
    rfl

namespace SrcClockDomain

theorem clocked_mapMembers (change : ℕ+ → ClockedObject Name → ClockedObject Name)
    (source : SrcClockDomain Name) :
    (source.mapMembers change).clocked =
      source.clocked.map fun clocked => (clocked.1, change clocked.1 clocked.2) := by
  simp only [mapMembers, clocked, Children.clocked_mapMembers, map_map, map_append]
  rfl

variable {curTick : Nat} {source other next : SrcClockDomain Name}

variable [DecidableEq Name]

end SrcClockDomain

/-! ### Cycles -/

namespace SrcClockDomain

/-- What a call does to an object: nothing, or it brings it up to date under its period. The domain
of the object may have another period then. -/
def Follows (curTick : Nat) (before after : ℕ+ × ClockedObject Name) : Prop :=
  after = before ∨ after.2 = before.2.update curTick before.1

theorem Follows.name {curTick : Nat} {before after : ℕ+ × ClockedObject Name}
    (follows : Follows curTick before after) : after.2.name = before.2.name := by
  rcases follows with rfl | updated
  · rfl
  · rw [updated, ClockedObject.update_name]

end SrcClockDomain

namespace SrcClockDomain

variable {curTick : Nat} {source next : SrcClockDomain Name}

variable [DecidableEq Name]

end SrcClockDomain

/-! ### The range of a clock edge -/

namespace ClockedObject

variable {curTick : Nat} {clockPeriod : ℕ+} {object : ClockedObject Name}

theorem update_tick_lt_iff :
    (object.update curTick clockPeriod).tick < curTick + clockPeriod ↔
      object.tick < curTick + clockPeriod := by
  rw [update_eq, advance]
  dsimp only
  refine ⟨lt_of_le_of_lt (Nat.le_add_right ..), fun near => ?_⟩
  cases cycles : object.behind curTick clockPeriod with
  | zero => rwa [zero_mul, add_zero]
  | succ less =>
    have late : ¬ object.behind curTick clockPeriod ≤ less := by omega
    rw [behind_le_iff] at late
    rw [add_mul]
    omega

/-- The object answers as `clockEdge` is documented. -/
def InRange (curTick : Nat) (clockPeriod : ℕ+) (object : ClockedObject Name) : Prop :=
  ∀ cycles, ∃ edge, (object.ask curTick clockPeriod (.clockEdge cycles)).1 = some edge ∧
    curTick + clockPeriod * cycles ≤ edge ∧ edge < curTick + clockPeriod + clockPeriod * cycles

theorem inRange_iff :
    object.InRange curTick clockPeriod ↔ object.tick < curTick + clockPeriod := by
  rw [← update_tick_lt_iff]
  constructor
  · intro inRange
    obtain ⟨_, asked, _, less⟩ := inRange 0
    cases asked
    exact less
  · intro near cycles
    exact ⟨_, rfl, Nat.add_le_add_right (le_update_tick ..) _, Nat.add_lt_add_right near _⟩

theorem InRange.create (clockPeriod : ℕ+) (name : Name) :
    (ClockedObject.create name).InRange 0 clockPeriod :=
  inRange_iff.mpr (Nat.lt_add_of_pos_right clockPeriod.pos)

end ClockedObject

/-- The next edges of the objects below a domain, and the periods that the objects get with a new
period of the domain. -/
def Children.edges (curTick parentPeriod : Nat) : Children Name → List (Nat × Nat)
  | none => []
  | domain clockPeriod clockDivider members children others =>
    members.map (fun object =>
        ((object.update curTick clockPeriod).tick, parentPeriod * clockDivider)) ++
      children.edges curTick (parentPeriod * clockDivider) ++ others.edges curTick parentPeriod

namespace SrcClockDomain

variable {curTick : Nat} {source next : SrcClockDomain Name}

def edges (curTick newPeriod : Nat) (source : SrcClockDomain Name) : List (Nat × Nat) :=
  source.members.map (fun object => ((object.update curTick source.clockPeriod).tick, newPeriod)) ++
    source.children.edges curTick newPeriod

def InRange (curTick : Nat) (source : SrcClockDomain Name) : Prop :=
  ∀ clocked ∈ source.clocked, clocked.2.InRange curTick clocked.1

theorem InRange.later {later : Nat} (inRange : source.InRange curTick)
    (notBefore : curTick ≤ later) : source.InRange later := by
  intro clocked member
  have near := ClockedObject.inRange_iff.mp (inRange clocked member)
  exact ClockedObject.inRange_iff.mpr (by omega)

variable [DecidableEq Name]

theorem InRange.ask (inRange : source.InRange curTick) (name : Name) (query : Query) :
    (source.ask curTick name query).InRange curTick := by
  rw [InRange, SrcClockDomain.ask, clocked_mapMembers, forall_mem_map]
  intro clocked member
  have near := ClockedObject.inRange_iff.mp (inRange clocked member)
  rw [ClockedObject.inRange_iff]
  split
  · rwa [ClockedObject.ask_snd, ClockedObject.update_tick_lt_iff]
  · exact near

/-- At every tick of a schedule every object answers as documented. -/
def InRangeAlong (curTick : Nat) (source : SrcClockDomain Name) : List (Nat × Call Name) → Prop
  | [] => ∀ later ≥ curTick, source.InRange later
  | timed :: schedule => (∀ later ≥ curTick, later ≤ timed.1 → source.InRange later) ∧
    ∀ next, source.call timed = .ok next → next.InRangeAlong timed.1 schedule

/-- The new period of the domain, if a call changes it. -/
def newPeriod (source : SrcClockDomain Name) : Call Name → Option Nat
  | .query .. => none
  | .perfLevel level =>
    if level = source.perfLevel then none else some (source.freqOpPoints.getD level 0)
  | .clockPeriod newPeriod => some newPeriod

section

variable {last : Nat} {schedule : List (Nat × Call Name)}

theorem InRangeAlong.start (along : source.InRangeAlong curTick schedule)
    (timely : Timely curTick schedule last) : source.InRange curTick := by
  cases schedule with
  | nil => exact along curTick le_rfl
  | cons => exact along.1 curTick le_rfl timely.cons.1

end

end SrcClockDomain

end Gem5.Sim.Clocks
