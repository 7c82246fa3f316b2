/-
This file proves that the linked bins refine the lists: from related states
every call and every step of the simulator does the same with the bins as with
the lists, faults included. Runs that start with empty queues therefore keep
the bins equal, read from the head, to the sorted lists of the scheduled events.
-/

import Gem5.Sim.Placement

namespace Gem5.Sim

open Base Library List Machine Agree Function

/-! ### The structures -/

section Structures

variable {Ptr : Type} [DecidableEq Ptr] [Fintype Ptr] {events : Ptr → Event} {links : Links Ptr}
  {lists : QueueId → List Ptr} {this : QueueId} {event : Ptr}

/-- The bins of every queue hold the events of its list, in that order. -/
def Ordered (events : Ptr → Event) (links : Links Ptr) (lists : QueueId → List Ptr) : Prop :=
  ∀ this, Denotes events links this (lists this)

omit [DecidableEq Ptr] [Fintype Ptr] in
theorem ordered_empty (events : Ptr → Event) (nextBin nextInBin : Ptr → Option Ptr) :
    Ordered events { head := fun _ => none, nextBin, nextInBin } fun _ => [] :=
  fun _ => ⟨[], ⟨rfl, by simp⟩, ⟨by simp, by simp, by simp [members]⟩, rfl⟩

/-- No event is in two lists. -/
def Apart (lists : QueueId → List Ptr) : Prop :=
  ∀ this other event, event ∈ lists this → event ∈ lists other → this = other

variable (ordered : Ordered events links lists)
include ordered

omit [DecidableEq Ptr] [Fintype Ptr] in
/-- What a call does to one queue and to events outside the other lists leaves the other lists
in place. -/
theorem Ordered.update {after : Links Ptr} {touched list : List Ptr}
    (own : Denotes events after this list)
    (frame : Links.Frame this touched links after)
    (untouched : ∀ other, other ≠ this → ∀ event ∈ lists other, event ∉ touched) :
    Ordered events after (update lists this list) := by
  intro queue
  by_cases same : queue = this
  · subst same
    rw [update_self]
    exact own
  · rw [update_of_ne same]
    exact (ordered queue).frame frame same (untouched queue same)

theorem Ordered.insert (fresh : ∀ queue, event ∉ lists queue) (apart : Apart lists) :
    Agree (Ordered events) ((linkedPending Ptr).insert events this event links)
      ((listPending Ptr).insert events this event lists) := by
  obtain ⟨_, inserted, denotes, frame⟩ :=
    Links.insert_denotes (ordered this) (fresh this)
  simp only [linkedPending, listPending, inserted]
  refine ordered.update denotes frame fun other different listed inside touched => ?_
  rcases mem_cons.mp touched with equal | own
  · exact fresh other (equal ▸ inside)
  · exact different (apart other this listed inside own)

theorem Ordered.remove (apart : Apart lists) :
    Agree (Ordered events) ((linkedPending Ptr).remove events this event links)
      ((listPending Ptr).remove events this event lists) := by
  have front := (ordered this).head_eq
  simp only [linkedPending, listPending]
  split
  · rename_i empty
    rw [empty, head?_nil] at front
    rw [Links.remove, front]
    rfl
  · rename_i nonempty
    split
    · rename_i elsewhere
      cases list : lists this with
      | nil => exact absurd list nonempty
      | cons =>
        rw [list, head?_cons] at front
        simp only [Links.remove, front, elsewhere, ne_eq, not_false_eq_true, if_true]
        rfl
    · rename_i here
      rw [not_not] at here
      split
      · rename_i listed
        obtain ⟨_, removed, denotes, frame⟩ :=
          Links.remove_listed (ordered this) here listed
        rw [removed]
        exact ordered.update denotes frame fun other different event inside own =>
          different (apart other this event inside own)
      · rename_i absent
        rw [Links.remove_absent (ordered this) here absent]
        rfl

omit [Fintype Ptr] in
theorem Ordered.pop (apart : Apart lists) :
    Ordered events (links.pop this) (Function.update lists this (lists this).tail) := by
  obtain ⟨denotes, frame⟩ := Links.pop_denotes (ordered this)
  exact ordered.update denotes frame fun other different event inside own =>
    different (apart other this event inside own)

omit [Fintype Ptr] in
theorem Ordered.write {value : Event}
    (harmless : value.key = (events event).key ∨ ∀ queue, event ∉ lists queue) :
    Ordered (Function.update events event value) links lists := by
  intro queue
  refine (ordered queue).congr_events fun other listed => ?_
  by_cases equal : other = event
  · subst equal
    rw [update_self]
    exact harmless.resolve_right fun fresh => fresh queue listed
  · rw [update_of_ne equal]

end Structures

/-! ### The calls -/

section Calls

variable {Ptr : Type} [DecidableEq Ptr] [Fintype Ptr]

theorem Agree.require_bind {First Second : Type} {related : First → Second → Prop}
    {condition : Prop} [Decidable condition] {fault : Fault}
    {first : Unit → Except Fault First} {second : Unit → Except Fault Second}
    (next : condition → Agree related (first ()) (second ())) :
    Agree related (require condition fault >>= first) (require condition fault >>= second) := by
  unfold require
  split
  · rename_i holds
    exact next holds
  · rfl

/-- The machine with the given links in the place of its lists. -/
def Machine.withLinks (links : Links Ptr) (spec : ListMachine Ptr) : Machine Ptr (Links Ptr) where
  events := spec.events
  order := links
  curTick := spec.curTick
  asyncQueue := spec.asyncQueue
  inParallelMode := spec.inParallelMode

/-- The two machines differ only in how they hold the events of the queues. -/
def Refines (code : Machine Ptr (Links Ptr)) (spec : ListMachine Ptr) : Prop :=
  ∃ links, code = spec.withLinks links ∧ Ordered spec.events links spec.order

omit [DecidableEq Ptr] [Fintype Ptr] in
theorem Placed.apart {spec : ListMachine Ptr} (placed : Placed spec) : Apart spec.order :=
  fun _ _ _ inThis inOther =>
    placed.filed.apart (mem_append_left _ inThis) (mem_append_left _ inOther)

omit [DecidableEq Ptr] [Fintype Ptr] in
theorem Placed.fresh {spec : ListMachine Ptr} {event : Ptr} (placed : Placed spec)
    (unscheduled : (spec.events event).scheduled = false) (queue : QueueId) :
    event ∉ spec.order queue :=
  fun listed => placed.filed.absent unscheduled queue (mem_append_left _ listed)

omit [Fintype Ptr] in
theorem Placed.erased {spec : ListMachine Ptr} {this : QueueId} {event : Ptr}
    (placed : Placed spec) (listed : event ∈ spec.order this) :
    (∀ queue, event ∉ (spec.eraseList this event).order queue) ∧
      Apart (spec.eraseList this event).order := by
  have change : Change this (fun _ => False) spec ((spec.eraseList this event).setEvent event
      ((spec.events event).clearFlags EventFlag.scheduled)) :=
    .erase listed (Event.scheduled_clear _)
  have cleared := placed.change change
  refine ⟨cleared.fresh ?_, cleared.apart⟩
  rw [setEvent_events]
  exact Event.scheduled_clear _

namespace Refines

variable {code : Machine Ptr (Links Ptr)} {spec : ListMachine Ptr} {cur this : QueueId}
  {event : Ptr} (refines : Refines code spec)
include refines

omit [Fintype Ptr] in
theorem setEvent (event : Ptr) (value : Event)
    (harmless : value.key = (spec.events event).key ∨ ∀ queue, event ∉ spec.order queue) :
    Refines (code.setEvent event value) (spec.setEvent event value) := by
  obtain ⟨links, rfl, ordered⟩ := refines
  exact ⟨links, rfl, ordered.write harmless⟩

omit [DecidableEq Ptr] [Fintype Ptr] in
theorem setCurTick (this : QueueId) (newVal : Tick) :
    Refines (code.setCurTick this newVal) (spec.setCurTick this newVal) := by
  obtain ⟨links, rfl, ordered⟩ := refines
  exact ⟨links, rfl, ordered⟩

omit [DecidableEq Ptr] [Fintype Ptr] in
theorem asyncInsert (this : QueueId) (event : Ptr) :
    Refines (code.asyncInsert this event) (spec.asyncInsert this event) := by
  obtain ⟨links, rfl, ordered⟩ := refines
  exact ⟨links, rfl, ordered⟩

theorem insert (fresh : ∀ queue, event ∉ spec.order queue) (apart : Apart spec.order) :
    Agree (fun code next => Refines code next ∧ next = spec.insertList this event)
      (code.insert (linkedPending Ptr) this event) (spec.insert (listPending Ptr) this event) := by
  obtain ⟨_, rfl, ordered⟩ := refines
  refine (ordered.insert fresh apart).and_right (fun _ same => same) |>.bind ?_
  rintro after lists ⟨ordered, same⟩
  cases same
  exact ⟨⟨after, rfl, ordered⟩, rfl⟩

theorem remove (this : QueueId) (event : Ptr) (apart : Apart spec.order) :
    Agree (fun code next => Refines code next ∧ event ∈ spec.order this ∧
        next = spec.eraseList this event)
      (code.remove (linkedPending Ptr) this event)
      (spec.remove (listPending Ptr) this event) := by
  obtain ⟨links, rfl, ordered⟩ := refines
  have agree : Agree Refines ((spec.withLinks links).remove (linkedPending Ptr) this event)
      (spec.remove (listPending Ptr) this event) :=
    (ordered.remove apart).bind fun after lists ordered => ⟨after, rfl, ordered⟩
  exact agree.and_right fun next done => (remove_cases done).2

omit [Fintype Ptr] in
theorem delete : Agree Refines (code.delete event) (spec.delete event) := by
  obtain ⟨links, rfl, ordered⟩ := refines
  exact Agree.require_bind fun _ => setEvent ⟨links, rfl, ordered⟩ _ _ (.inl rfl)

omit [Fintype Ptr] in
theorem squash : Agree Refines (code.squash event) (spec.squash event) := by
  obtain ⟨links, rfl, ordered⟩ := refines
  exact Agree.require_bind fun _ => setEvent ⟨links, rfl, ordered⟩ _ _ (.inl rfl)

omit [Fintype Ptr] in
theorem reap (event : Ptr) : Agree Refines (code.reap event) (spec.reap event) := by
  obtain ⟨links, rfl, ordered⟩ := refines
  exact Agree.ite (fun _ => delete ⟨links, rfl, ordered⟩) (fun _ => ⟨links, rfl, ordered⟩)

theorem insert_setEvent (value : Event) (mark : Event → Event)
    (fresh : ∀ queue, event ∉ spec.order queue) (apart : Apart spec.order)
    (same : ∀ event, (mark event).key = event.key) :
    Agree Refines
      ((code.setEvent event value).insert (linkedPending Ptr) this event >>= fun code =>
        return code.setEvent event (mark (code.events event)))
      ((spec.setEvent event value).insert (listPending Ptr) this event >>= fun spec =>
        return spec.setEvent event (mark (spec.events event))) := by
  refine ((refines.setEvent event value (.inr fresh)).insert fresh apart).bind ?_
  rintro code next ⟨refines, _⟩
  obtain ⟨links, rfl, ordered⟩ := refines
  exact setEvent ⟨links, rfl, ordered⟩ _ _ (.inl (same _))

theorem foldlM_insert (this : QueueId) (waiting : List Ptr) (apart : Apart spec.order)
    (nodup : waiting.Nodup)
    (fresh : ∀ event ∈ waiting, ∀ queue, event ∉ spec.order queue) :
    Agree Refines
      (waiting.foldlM (fun code event => code.insert (linkedPending Ptr) this event) code)
      (waiting.foldlM (fun spec event => spec.insert (listPending Ptr) this event) spec) := by
  induction waiting generalizing code spec with
  | nil => exact refines
  | cons event _ hypothesis =>
    rw [foldlM_cons, foldlM_cons]
    have outside := fresh event mem_cons_self
    refine (refines.insert outside apart).bind ?_
    rintro code next ⟨refines, rfl⟩
    refine hypothesis refines ?_ (nodup_cons.mp nodup).2 ?_
    · intro first second other inFirst inSecond
      rcases mem_insertList inFirst with ⟨rfl, rfl⟩ | oldFirst <;>
        rcases mem_insertList inSecond with ⟨equal, rfl⟩ | oldSecond
      · rfl
      · exact absurd oldSecond (outside second)
      · exact absurd (equal ▸ oldFirst) (outside first)
      · exact apart first second other oldFirst oldSecond
    · intro other waits queue listed
      rcases mem_insertList listed with ⟨rfl, _⟩ | listed
      · exact (nodup_cons.mp nodup).1 waits
      · exact fresh other (mem_cons_of_mem _ waits) queue listed

section

variable (placed : Placed spec)
include placed

theorem schedule {when : Tick} {global : Bool} :
    Agree Refines (code.schedule (linkedPending Ptr) cur this event when global)
      (spec.schedule (listPending Ptr) cur this event when global) := by
  obtain ⟨links, rfl, ordered⟩ := refines
  refine Agree.require_bind fun _ => Agree.require_bind fun unscheduled =>
    Agree.require_bind fun _ => ?_
  have fresh := placed.fresh unscheduled
  have refines : Refines (spec.withLinks links) spec := ⟨links, rfl, ordered⟩
  refine Agree.ite (fun _ => ?_) (fun _ => ?_)
  · have waits := (refines.setEvent event ((spec.events event).setWhen when this)
      (.inr fresh)).asyncInsert this event
    exact waits.setEvent _ _ (.inl rfl)
  · exact refines.insert_setEvent _ (·.setFlags EventFlag.scheduled) fresh placed.apart
      fun _ => rfl

theorem deschedule :
    Agree Refines (code.deschedule (linkedPending Ptr) cur this event)
      (spec.deschedule (listPending Ptr) cur this event) := by
  have remove := refines.remove this event placed.apart
  obtain ⟨links, rfl, ordered⟩ := refines
  refine Agree.require_bind fun _ => Agree.require_bind fun _ => Agree.require_bind fun _ => ?_
  refine remove.bind ?_
  rintro code next ⟨⟨links, rfl, ordered⟩, _⟩
  have cleared := setEvent ⟨links, rfl, ordered⟩ event (((next.events event).clearFlags
    EventFlag.squashed).clearFlags EventFlag.scheduled) (.inl rfl)
  exact Agree.ite (fun _ => cleared.delete) (fun _ => cleared)

theorem reschedule {when : Tick} {always : Bool} :
    Agree Refines (code.reschedule (linkedPending Ptr) cur this event when always)
      (spec.reschedule (listPending Ptr) cur this event when always) := by
  have remove := refines.remove this event placed.apart
  obtain ⟨links, rfl, ordered⟩ := refines
  refine Agree.require_bind fun _ => Agree.require_bind fun _ => Agree.require_bind fun _ =>
    Agree.require_bind fun _ => Agree.ite (fun _ => ?_) (fun unscheduled => ?_)
  · refine remove.bind ?_
    rintro code next ⟨⟨links, rfl, ordered⟩, listed, rfl⟩
    obtain ⟨fresh, apart⟩ := placed.erased listed
    exact insert_setEvent ⟨links, rfl, ordered⟩ _ (fun event =>
      (event.clearFlags EventFlag.squashed).setFlags EventFlag.scheduled) fresh apart fun _ => rfl
  · exact insert_setEvent ⟨links, rfl, ordered⟩ _ (fun event =>
      (event.clearFlags EventFlag.squashed).setFlags EventFlag.scheduled)
      (placed.fresh (Bool.eq_false_of_not_eq_true unscheduled)) placed.apart fun _ => rfl

theorem handleAsyncInsertions :
    Agree Refines (code.handleAsyncInsertions (linkedPending Ptr) this)
      (spec.handleAsyncInsertions (listPending Ptr) this) := by
  obtain ⟨links, rfl, ordered⟩ := refines
  have nodup := nodup_append.mp (placed.filed this).1
  have inserted := foldlM_insert ⟨links, rfl, ordered⟩ this (spec.asyncQueue this) placed.apart
    nodup.2.1 (fun event waits queue listed => by
      have same := placed.filed.apart (mem_append_left _ listed)
        (mem_append_right _ waits)
      subst same
      exact nodup.2.2 event listed event waits rfl)
  refine inserted.bind ?_
  rintro code next ⟨links, rfl, ordered⟩
  exact ⟨links, rfl, ordered⟩

theorem beginService :
    Agree (fun code spec => Refines code.1 spec.1 ∧ code.2 = spec.2)
      (code.beginService (linkedPending Ptr) this) (spec.beginService (listPending Ptr) this) := by
  obtain ⟨links, rfl, ordered⟩ := refines
  have front : (linkedPending Ptr).front links this = (listPending Ptr).front spec.order this :=
    (ordered this).head_eq
  unfold Machine.beginService
  simp only [Machine.withLinks, front]
  cases (listPending Ptr).front spec.order this with
  | none => rfl
  | some event =>
    have popped : Refines ({ spec with order := (listPending Ptr).pop this spec.order }.withLinks
        (links.pop this)) { spec with order := (listPending Ptr).pop this spec.order } :=
      ⟨_, rfl, ordered.pop placed.apart⟩
    have cleared := popped.setEvent event ((spec.events event).clearFlags EventFlag.scheduled)
      (.inl rfl)
    refine Agree.ite (fun _ => ⟨cleared.setCurTick _ _, rfl⟩) (fun _ => ⟨?_, rfl⟩)
    exact cleared.setEvent _ _ (.inl rfl)

end

omit [Fintype Ptr] in
theorem endService (event : Ptr) :
    Agree (fun code spec => Refines code.1 spec.1 ∧ code.2 = spec.2)
      (code.endService event) (spec.endService event) := by
  have reaped := refines.reap event
  obtain ⟨links, rfl, ordered⟩ := refines
  refine Agree.require_bind fun _ => Agree.ite (fun _ => Agree.require_bind fun _ => ?_)
    (fun _ => ?_)
  · exact ⟨⟨links, rfl, ordered⟩, rfl⟩
  · exact reaped.bind fun _ _ refines => ⟨refines, rfl⟩

theorem nextTick (this : QueueId) :
    code.nextTick (linkedPending Ptr) this = spec.nextTick (listPending Ptr) this := by
  obtain ⟨links, rfl, ordered⟩ := refines
  have front : links.head this = (spec.order this).head? := (ordered this).head_eq
  simp only [Machine.nextTick, linkedPending, listPending, Machine.withLinks, front]

end Refines

end Calls

/-! ### Steps and runs -/

section Runs

variable {Ptr : Type} [DecidableEq Ptr] [Fintype Ptr] {code : System Ptr (Links Ptr)}
  {spec : ListSystem Ptr}

/-- The threads are at the same points and the machines are related. -/
structure SystemRefines (code : System Ptr (Links Ptr)) (spec : ListSystem Ptr) : Prop where
  control : code.control = spec.control
  machine : Refines code.machine spec.machine

omit [DecidableEq Ptr] [Fintype Ptr] in
theorem SystemRefines.call {codeResult : Except Fault (Machine Ptr (Links Ptr))}
    {specResult : Except Fault (ListMachine Ptr)} (related : SystemRefines code spec)
    (agree : Agree Refines codeResult specResult) :
    Agree SystemRefines (code.call codeResult) (spec.call specResult) :=
  agree.bind fun _ _ refines => ⟨related.control, refines⟩

omit [DecidableEq Ptr] [Fintype Ptr] in
theorem SystemRefines.setControl (related : SystemRefines code spec) (cur : QueueId)
    (point : Control Ptr) :
    SystemRefines (code.setControl cur point) (spec.setControl cur point) := by
  refine ⟨?_, related.machine⟩
  rw [System.setControl, System.setControl, related.control]

theorem SystemRefines.loops (related : SystemRefines code spec) (cur : QueueId) (when : Tick) :
    code.loops (linkedPending Ptr) cur when = spec.loops (listPending Ptr) cur when := by
  rw [System.loops, System.loops, related.machine.nextTick]

theorem SystemRefines.step (related : SystemRefines code spec) (placed : Placed spec.machine)
    (action : Action Ptr) :
    Agree SystemRefines (code.step (linkedPending Ptr) action)
      (spec.step (listPending Ptr) action) := by
  have refines := related.machine
  cases action with
  | schedule => exact related.call (refines.schedule placed)
  | deschedule => exact related.call (refines.deschedule placed)
  | reschedule => exact related.call (refines.reschedule placed)
  | squash => exact related.call refines.squash
  | handleAsyncInsertions => exact related.call (refines.handleAsyncInsertions placed)
  | serviceOne =>
    simp only [System.step, related.control, related.loops]
    refine Agree.require_bind fun _ => Agree.require_bind fun _ =>
      (refines.beginService placed).bind ?_
    rintro ⟨codeNext, event, live⟩ ⟨specNext, _⟩ ⟨refines, same⟩
    cases same
    refine Agree.ite (fun _ => ?_) (fun _ => ?_)
    · exact SystemRefines.setControl ⟨rfl, refines⟩ _ _
    · exact (refines.reap event).bind fun _ _ refines => ⟨rfl, refines⟩
  | processReturn cur =>
    simp only [System.step, related.control]
    cases (spec.control cur).running with
    | none => rfl
    | some event =>
      refine (refines.endService event).bind ?_
      rintro ⟨codeNext, exit⟩ ⟨specNext, _⟩ ⟨refines, same⟩
      cases same
      exact SystemRefines.setControl ⟨rfl, refines⟩ _ _
  | serviceEvents =>
    simp only [System.step, related.control]
    exact Agree.require_bind fun _ => related.setControl _ _
  | serviceEventsReturn =>
    simp only [System.step, related.control, related.loops]
    split
    · refine Agree.require_bind fun _ => ?_
      exact SystemRefines.setControl ⟨rfl, refines.setCurTick _ _⟩ _ _
    · rfl

end Runs

end Gem5.Sim
