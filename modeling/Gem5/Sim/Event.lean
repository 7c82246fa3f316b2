/-
This file models the events of `sim/eventq.hh`: the flags, the timestamp and
the priority of an event and the comparisons the queue sorts by. The link
fields of an event are kept apart, in the structure of the queue. The six
comparison operators are read as one linear order on the pair of timestamp and
priority.
-/

import Gem5.Base.Flags
import Mathlib.Data.Prod.Lex

namespace Gem5.Sim

open Base Flags

/-- `Tick`: a timestamp. -/
abbrev Tick := Nat

/-- `EventBase::Priority`: the tie-breaker of events of one tick. -/
abbrev Priority := Int

/-- The index of a queue in `mainEventQueue`. -/
abbrev QueueId := Nat

/-! ### Flags -/

namespace EventFlag

/-- `EventBase::Squashed`: has been squashed. -/
def squashed : Flags 16 := 0x0001#16

/-- `EventBase::Scheduled`: has been scheduled. -/
def scheduled : Flags 16 := 0x0002#16

/-- `EventBase::AutoDelete`: delete after dispatch. -/
def autoDelete : Flags 16 := 0x0004#16

/-- `EventBase::AutoSerialize`: must be serialized. -/
def autoSerialize : Flags 16 := 0x0008#16

/-- `EventBase::IsExitEvent`: special exit event. -/
def isExitEvent : Flags 16 := 0x0010#16

/-- `EventBase::IsMainQueue`: on main event queue. -/
def isMainQueue : Flags 16 := 0x0020#16

/-- `EventBase::Initialized`: somewhat random bits. -/
def initialized : Flags 16 := 0x7a40#16

/-- `EventBase::InitMask`: mask for init bits. -/
def initMask : Flags 16 := 0xffc0#16

end EventFlag

/-- The fields of an `Event` other than its two links. -/
structure Event where
  when : Tick
  priority : Priority
  flags : Flags 16
  queue : Option QueueId
  deriving DecidableEq, Repr

namespace Event

/-- `Event(p, f)`: a constructed event is on no queue. -/
def create (p : Priority) (f : Flags 16) : Event where
  when := 0
  priority := p
  flags := EventFlag.initialized.set f
  queue := none

/-- `Event::scheduled()`. -/
def scheduled (event : Event) : Bool := event.flags.isSet EventFlag.scheduled

/-- `Event::squashed()`. -/
def squashed (event : Event) : Bool := event.flags.isSet EventFlag.squashed

/-- `Event::isExitEvent()`. -/
def isExitEvent (event : Event) : Bool := event.flags.isSet EventFlag.isExitEvent

/-- The `AutoDelete` flag of the event. -/
def autoDelete (event : Event) : Bool := event.flags.isSet EventFlag.autoDelete

/-- The `AutoSerialize` flag of the event. -/
def autoSerialize (event : Event) : Bool := event.flags.isSet EventFlag.autoSerialize

/-- The `IsMainQueue` flag of the event. -/
def isMainQueue (event : Event) : Bool := event.flags.isSet EventFlag.isMainQueue

/-- `Event::initialized()`. The destructor clears every flag, so a deleted event is not
initialized. -/
def initialized (event : Event) : Bool :=
  event.flags &&& EventFlag.initMask == EventFlag.initialized

/-- `flags.set` on the flags of the event. -/
def setFlags (event : Event) (mask : Flags 16) : Event :=
  { event with flags := event.flags.set mask }

/-- `flags.clear` on the flags of the event. -/
def clearFlags (event : Event) (mask : Flags 16) : Event :=
  { event with flags := event.flags.clear mask }

/-- `Event::setWhen(when, q)`. -/
def setWhen (event : Event) (when : Tick) (queue : QueueId) : Event :=
  { event with when, queue := some queue }

/-! ### What a write to the flags leaves in place -/

section Frame

variable (event : Event)

@[simp] theorem scheduled_set : (event.setFlags EventFlag.scheduled).scheduled = true :=
  isSet_set_self (by decide)

@[simp] theorem scheduled_clear : (event.clearFlags EventFlag.scheduled).scheduled = false :=
  isSet_clear_of_subset (by decide)

@[simp] theorem scheduled_set_squashed :
    (event.setFlags EventFlag.squashed).scheduled = event.scheduled :=
  isSet_set_of_disjoint (by decide)

@[simp] theorem scheduled_clear_squashed :
    (event.clearFlags EventFlag.squashed).scheduled = event.scheduled :=
  isSet_clear_of_disjoint (by decide)

@[simp] theorem squashed_clear_scheduled :
    (event.clearFlags EventFlag.scheduled).squashed = event.squashed :=
  isSet_clear_of_disjoint (by decide)

@[simp] theorem autoDelete_clear_scheduled :
    (event.clearFlags EventFlag.scheduled).autoDelete = event.autoDelete :=
  isSet_clear_of_disjoint (by decide)

@[simp] theorem autoDelete_clear_squashed :
    (event.clearFlags EventFlag.squashed).autoDelete = event.autoDelete :=
  isSet_clear_of_disjoint (by decide)

@[simp] theorem initialized_clear_scheduled :
    (event.clearFlags EventFlag.scheduled).initialized = event.initialized := by
  rw [initialized, clearFlags, clear_and_of_disjoint (by decide), initialized]

@[simp] theorem initialized_set_scheduled :
    (event.setFlags EventFlag.scheduled).initialized = event.initialized := by
  rw [initialized, setFlags, set_and_of_disjoint (by decide), initialized]

@[simp] theorem initialized_set_squashed :
    (event.setFlags EventFlag.squashed).initialized = event.initialized := by
  rw [initialized, setFlags, set_and_of_disjoint (by decide), initialized]

@[simp] theorem initialized_clear_squashed :
    (event.clearFlags EventFlag.squashed).initialized = event.initialized := by
  rw [initialized, clearFlags, clear_and_of_disjoint (by decide), initialized]

@[simp] theorem scheduled_zero : ({ event with flags := 0 } : Event).scheduled = false := by
  show Flags.isSet (0 : Flags 16) EventFlag.scheduled = false
  decide

@[simp] theorem initialized_zero : ({ event with flags := 0 } : Event).initialized = false := by
  show ((0 : Flags 16) &&& EventFlag.initMask == EventFlag.initialized) = false
  decide

end Frame

/-! ### The order of events -/

/-- `operator<`. -/
def lt (left right : Event) : Prop :=
  left.when < right.when ∨ (left.when = right.when ∧ left.priority < right.priority)
deriving Decidable

/-- `operator<=`. -/
def le (left right : Event) : Prop :=
  left.when < right.when ∨ (left.when = right.when ∧ left.priority ≤ right.priority)
deriving Decidable

/-- `operator==`. -/
def eq (left right : Event) : Prop :=
  left.when = right.when ∧ left.priority = right.priority
deriving Decidable

/-- `operator!=`. -/
def ne (left right : Event) : Prop :=
  left.when ≠ right.when ∨ left.priority ≠ right.priority
deriving Decidable

/-- What the queue sorts by: the timestamp, then the priority. -/
def key (event : Event) : Tick ×ₗ Priority := toLex (event.when, event.priority)

section

variable (left right : Event)
include left right

theorem lt_iff : left.lt right ↔ left.key < right.key := by
  rw [key, key, Prod.Lex.toLex_lt_toLex, lt]

theorem le_iff : left.le right ↔ left.key ≤ right.key := by
  rw [key, key, Prod.Lex.toLex_le_toLex, le]

theorem eq_iff : left.eq right ↔ left.key = right.key := by
  rw [key, key, toLex_inj, Prod.mk.injEq, eq]

theorem ne_iff : left.ne right ↔ left.key ≠ right.key := by
  rw [Ne, ← eq_iff, eq, ne, not_and_or]

end

theorem when_le_of_key_le {left right : Event} (sorted : left.key ≤ right.key) :
    left.when ≤ right.when := by
  rcases (le_iff left right).mpr sorted with earlier | ⟨same, _⟩
  · exact le_of_lt earlier
  · exact le_of_eq same

end Event

end Gem5.Sim
