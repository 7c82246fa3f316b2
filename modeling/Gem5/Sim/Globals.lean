/-
This file models checkpoints of all the main event queues (`Globals::serialize` and `unserialize` of
`sim/serialize.cc`) as they go through the reader of `base/inifile.cc`. All queues are written into
sections of one name, and the reader merges such sections, so that every queue reads the list of the
last one. The objects that are made from that list are unserialized without a queue, which schedules
none of them.

It proves that the restored queues are empty, and hence that a checkpoint is restored exactly if no
queue held an event that is written.
-/

import Gem5.Library.Run

namespace Gem5.Sim.Globals

open Library List

inductive Fault where
  | fatal
  deriving DecidableEq

/-! ### The file -/

/-- The class names that are written, and those that are registered. -/
inductive TypeName where
  | linkDelayEvent
  | simLoopExitEvent
  | localSimLoopExitEvent
  deriving DecidableEq

inductive SectionName where
  | globals
  | mainEventQueue
  | event (name : Nat)
  deriving DecidableEq

inductive EntryName where
  | curTick
  | numMainEventQueues
  | numEvents
  | event (index : Nat)
  | type
  | when
  | priority
  | flags
  deriving DecidableEq

inductive Value where
  | number (value : Int)
  | eventName (name : Nat)
  | typeName (name : TypeName)
  deriving DecidableEq

inductive Line where
  | header (name : SectionName)
  | assignment (name : EntryName) (value : Value)

/-- The entries of the sections; a section that was not added has none. -/
abbrev IniFile : Type := SectionName → EntryName → Option Value

namespace IniFile

def empty : IniFile := fun _ _ => none

/-- An entry that exists is overridden. -/
def addEntry (file : IniFile) (sectionName : SectionName) (entryName : EntryName) (value : Value) :
    IniFile :=
  fun otherSection other =>
    if otherSection = sectionName ∧ other = entryName then some value
    else file otherSection other

/-- One line of `IniFile::load`, with the section that is open. A header reopens a section that
exists. -/
def loadLine : Option SectionName × IniFile → Line → Option SectionName × IniFile
  | (_, file), .header name => (some name, file)
  | (none, file), .assignment _ _ => (none, file)
  | (some sectionName, file), .assignment name value =>
    (some sectionName, file.addEntry sectionName name value)

def load (lines : List Line) : IniFile := (lines.foldl loadLine (none, empty)).2

/-- `paramIn` of a number. -/
def number (file : IniFile) (sectionName : SectionName) (entryName : EntryName) :
    Except Fault Int :=
  match file sectionName entryName with
  | some (.number value) => .ok value
  | _ => .error .fatal

def eventName (file : IniFile) (sectionName : SectionName) (entryName : EntryName) :
    Except Fault Nat :=
  match file sectionName entryName with
  | some (.eventName name) => .ok name
  | _ => .error .fatal

end IniFile

/-! ### Events and queues -/

/-- The classes of events that are serialized with the queues: the local events of a global exit
event are barrier events. -/
inductive EventClass where
  | linkDelayEvent
  | localSimLoopExitEvent
  | barrierEvent
  deriving DecidableEq

/-- The type that the `serialize` of a class writes, if any. -/
def EventClass.type : EventClass → Option TypeName
  | .linkDelayEvent => some .linkDelayEvent
  | .localSimLoopExitEvent => some .simLoopExitEvent
  | .barrierEvent => none

def classMap : TypeName → Option EventClass
  | .linkDelayEvent => some .linkDelayEvent
  | .localSimLoopExitEvent => some .localSimLoopExitEvent
  | .simLoopExitEvent => none

structure Event where
  name : Nat
  class_ : EventClass
  autoSerialize : Bool
  when : Nat
  priority : Int
  flags : Int
  deriving DecidableEq

structure EventQueue where
  curTick : Nat
  events : List Event
  deriving DecidableEq

/-- A section as it is written. -/
structure Block where
  name : SectionName
  entries : List (EntryName × Value)

def Block.lines (block : Block) : List Line :=
  .header block.name :: block.entries.map fun entry => .assignment entry.1 entry.2

def Event.serialize (event : Event) : Block where
  name := .event event.name
  entries := (event.class_.type.toList.map fun type => (.type, .typeName type)) ++
    [(.when, .number event.when), (.priority, .number event.priority),
      (.flags, .number event.flags)]

def eventNames : Nat → List Event → List (EntryName × Value)
  | _, [] => []
  | index, event :: rest => (.event index, .eventName event.name) :: eventNames (index + 1) rest

/-- The events of a queue that are written. -/
def serialized (events : List Event) : List Event := events.filter Event.autoSerialize

def serializeQueue (events : List Event) : List Block :=
  ⟨.mainEventQueue, eventNames 0 (serialized events) ++
      [(.numEvents, .number (serialized events).length)]⟩ ::
    (serialized events).map Event.serialize

def serialize (curTick : Nat) (queues : List (List Event)) : List Block :=
  ⟨.globals, [(.curTick, .number curTick), (.numMainEventQueues, .number queues.length)]⟩ ::
    queues.flatMap serializeQueue

/-- An object that was made from a section. -/
structure Object where
  name : Nat
  class_ : EventClass
  deriving DecidableEq

/-- `Event::unserialize` without a queue, which `Serializable::create` calls, does nothing; that of
an exit event reads its own fields. -/
def Object.unserialize (object : Object) : Object := object

/-- `Serializable::create`. -/
def create (cp : IniFile) (name : Nat) : Except Fault Object :=
  match cp (.event name) .type with
  | some (.typeName type) =>
    match classMap type with
    | some class_ => .ok (Object.unserialize ⟨name, class_⟩)
    | none => .error .fatal
  | _ => .error .fatal

/-- The loop of `EventQueue::unserialize`. -/
def createLoop (cp : IniFile) : Nat → Nat → Except Fault (List Object)
  | 0, _ => .ok []
  | count + 1, index => do
    let name ← cp.eventName .mainEventQueue (.event index)
    let object ← create cp name
    let rest ← createLoop cp count (index + 1)
    return object :: rest

/-- The objects that `EventQueue::unserialize` makes. -/
def createEvents (cp : IniFile) : Except Fault (List Object) := do
  let numEvents ← cp.number .mainEventQueue .numEvents
  createLoop cp numEvents.toNat 0

def EventQueue.unserialize (queue : EventQueue) (cp : IniFile) :
    Except Fault (EventQueue × List Object) := do
  let objects ← createEvents cp
  return (queue, objects)

/-- The queues after a restore, and the objects that were made on the way. -/
structure Restored where
  queues : List EventQueue
  objects : List Object

/-- The loop of `Globals::unserialize` over the queues. -/
def unserializeLoop (cp : IniFile) (tick : Nat) : List EventQueue → Except Fault Restored
  | [] => .ok ⟨[], []⟩
  | queue :: rest => do
    let (queue, objects) ← { queue with curTick := tick }.unserialize cp
    let restored ← unserializeLoop cp tick rest
    return ⟨queue :: restored.queues, objects ++ restored.objects⟩

/-- The restore of a simulation that has just started. -/
def unserialize (cp : IniFile) : Except Fault Restored := do
  let tick ← cp.number .globals .curTick
  let numMainEventQueues ← cp.number .globals .numMainEventQueues
  unserializeLoop cp tick.toNat (replicate numMainEventQueues.toNat ⟨0, []⟩)

/-- A checkpoint of the queues that is written and restored. -/
def roundTrip (curTick : Nat) (queues : List (List Event)) : Except Fault Restored :=
  unserialize (.load ((serialize curTick queues).flatMap Block.lines))

/-! ### What the reader finds -/

def IniFile.addEntries (file : IniFile) (sectionName : SectionName)
    (entries : List (EntryName × Value)) : IniFile :=
  entries.foldl (fun file entry => file.addEntry sectionName entry.1 entry.2) file

def IniFile.addBlocks (file : IniFile) (blocks : List Block) : IniFile :=
  blocks.foldl (fun file block => file.addEntries block.name block.entries) file

variable {file : IniFile} {sectionName other : SectionName} {entryName : EntryName}

theorem foldl_loadLine_block (opened : Option SectionName) (block : Block) :
    block.lines.foldl IniFile.loadLine (opened, file) =
      (some block.name, file.addEntries block.name block.entries) := by
  obtain ⟨name, entries⟩ := block
  rw [Block.lines, foldl_cons]
  have same : ∀ file : IniFile, (entries.map fun entry => Line.assignment entry.1 entry.2).foldl
      IniFile.loadLine (some name, file) = (some name, file.addEntries name entries) := by
    induction entries with
    | nil => exact fun _ => rfl
    | cons _ _ hypothesis => exact fun file => hypothesis _
  exact same file

theorem load_blocks (blocks : List Block) :
    IniFile.load (blocks.flatMap Block.lines) = IniFile.empty.addBlocks blocks := by
  have same : ∀ (opened : Option SectionName) (file : IniFile),
      ((blocks.flatMap Block.lines).foldl IniFile.loadLine (opened, file)).2 =
        file.addBlocks blocks := by
    induction blocks with
    | nil => exact fun _ _ => rfl
    | cons _ _ hypothesis =>
      intro opened file
      rw [flatMap_cons, foldl_append, foldl_loadLine_block, hypothesis]
      rfl
  exact same none _

theorem addEntries_cons (entry : EntryName × Value) (entries : List (EntryName × Value)) :
    file.addEntries sectionName (entry :: entries) =
      (file.addEntry sectionName entry.1 entry.2).addEntries sectionName entries :=
  rfl

theorem addEntries_append (first second : List (EntryName × Value)) :
    file.addEntries sectionName (first ++ second) =
      (file.addEntries sectionName first).addEntries sectionName second :=
  foldl_append

theorem addBlocks_cons (block : Block) (blocks : List Block) :
    file.addBlocks (block :: blocks) =
      (file.addEntries block.name block.entries).addBlocks blocks :=
  rfl

theorem addEntries_other (entries : List (EntryName × Value)) (apart : other ≠ sectionName) :
    file.addEntries sectionName entries other = file other := by
  induction entries generalizing file with
  | nil => rfl
  | cons _ _ hypothesis =>
    refine hypothesis.trans (funext fun name => ?_)
    exact if_neg fun both => apart both.1

theorem addBlocks_other {blocks : List Block} (apart : ∀ block ∈ blocks, other ≠ block.name) :
    file.addBlocks blocks other = file other := by
  induction blocks generalizing file with
  | nil => rfl
  | cons block _ hypothesis =>
    refine (hypothesis fun later member => apart later (mem_cons_of_mem _ member)).trans ?_
    exact addEntries_other _ (apart block mem_cons_self)

theorem addEntries_absent {entries : List (EntryName × Value)}
    (absent : ∀ entry ∈ entries, entryName ≠ entry.1) :
    file.addEntries sectionName entries sectionName entryName = file sectionName entryName := by
  induction entries generalizing file with
  | nil => rfl
  | cons entry _ hypothesis =>
    refine (hypothesis fun later member =>
      absent later (mem_cons_of_mem _ member)).trans ?_
    exact if_neg fun both => absent entry mem_cons_self both.2

theorem mem_eventNames {index : Nat} {events : List Event} {entry : EntryName × Value}
    (member : entry ∈ eventNames index events) :
    ∃ later, index ≤ later ∧ entry.1 = .event later := by
  induction events generalizing index with
  | nil => exact absurd member not_mem_nil
  | cons _ _ hypothesis =>
    rcases mem_cons.mp member with rfl | tail
    · exact ⟨index, Nat.le_refl _, rfl⟩
    · obtain ⟨later, bound, named⟩ := hypothesis tail
      exact ⟨later, Nat.le_of_succ_le bound, named⟩

theorem addEntries_eventNames (file : IniFile) (sectionName : SectionName) (index : Nat)
    (events : List Event) {position : Nat} {event : Event}
    (found : events[position]? = some event) :
    file.addEntries sectionName (eventNames index events) sectionName (.event (index + position)) =
      some (.eventName event.name) := by
  induction events generalizing index position file with
  | nil => exact absurd found (by simp)
  | cons _ _ hypothesis =>
    cases position with
    | zero =>
      cases found
      rw [eventNames, addEntries_cons, addEntries_absent fun entry member same => ?_]
      · exact if_pos ⟨rfl, rfl⟩
      · obtain ⟨_, _, named⟩ := mem_eventNames member
        cases same.trans named
        omega
    | succ position =>
      rw [eventNames, addEntries_cons, Nat.add_comm position, ← Nat.add_assoc]
      exact hypothesis _ (index + 1) found

/-- What is read of the first section. -/
theorem load_globals (curTick : Nat) (queues : List (List Event)) :
    (IniFile.load ((serialize curTick queues).flatMap Block.lines)) .globals .curTick =
        some (.number curTick) ∧
      (IniFile.load ((serialize curTick queues).flatMap Block.lines)) .globals .numMainEventQueues =
        some (.number queues.length) := by
  have kept : ∀ file : IniFile,
      file.addBlocks (queues.flatMap serializeQueue) .globals = file .globals := by
    intro file
    refine addBlocks_other fun block member => ?_
    obtain ⟨_, -, written⟩ := mem_flatMap.mp member
    rcases mem_cons.mp written with rfl | event
    · exact nofun
    · obtain ⟨_, -, rfl⟩ := mem_map.mp event
      exact nofun
  rw [load_blocks, serialize, addBlocks_cons, kept]
  exact ⟨rfl, rfl⟩

theorem load_mainEventQueue (curTick : Nat) (front : List (List Event)) (last : List Event) :
    let cp := IniFile.load ((serialize curTick (front ++ [last])).flatMap Block.lines)
    cp .mainEventQueue .numEvents = some (.number (serialized last).length) ∧
      ∀ position event, (serialized last)[position]? = some event →
        cp .mainEventQueue (.event position) = some (.eventName event.name) := by
  have kept : ∀ file : IniFile,
      file.addBlocks ((serialized last).map Event.serialize) .mainEventQueue =
        file .mainEventQueue := by
    intro file
    refine addBlocks_other fun block member => ?_
    obtain ⟨_, -, rfl⟩ := mem_map.mp member
    exact nofun
  intro cp
  have names : ∀ file : IniFile, ∃ before : IniFile, file.addBlocks (serializeQueue last)
      .mainEventQueue = before.addEntries .mainEventQueue (eventNames 0 (serialized last) ++
        [(.numEvents, .number (serialized last).length)]) .mainEventQueue := by
    intro file
    exact ⟨file, by rw [serializeQueue, addBlocks_cons, kept]⟩
  have read : ∃ before : IniFile, cp .mainEventQueue =
      before.addEntries .mainEventQueue (eventNames 0 (serialized last) ++
        [(.numEvents, .number (serialized last).length)]) .mainEventQueue := by
    rw [show cp = _ from load_blocks _, serialize, addBlocks_cons, flatMap_append,
      flatMap_singleton, IniFile.addBlocks, foldl_append]
    exact names _
  obtain ⟨before, read⟩ := read
  rw [read, addEntries_append]
  refine ⟨by simp [IniFile.addEntries, IniFile.addEntry], fun position event found => ?_⟩
  rw [addEntries_absent fun entry member => ?_]
  · have named := addEntries_eventNames before .mainEventQueue 0 _ found
    rwa [Nat.zero_add] at named
  · cases mem_singleton.mp member
    exact nofun

/-! ### The restore -/

variable {curTick : Nat} {queues : List (List Event)}

theorem createLoop_names {cp : IniFile} {events : List Event} {index : Nat} {objects : List Object}
    (read : ∀ position event, events[position]? = some event →
      cp .mainEventQueue (.event (index + position)) = some (.eventName event.name))
    (looped : createLoop cp events.length index = .ok objects) :
    objects.map Object.name = events.map Event.name := by
  induction events generalizing index objects with
  | nil =>
    cases looped
    rfl
  | cons event _ hypothesis =>
    obtain ⟨name, found, looped⟩ := bind_eq_ok looped
    obtain ⟨object, created, looped⟩ := bind_eq_ok looped
    obtain ⟨_, others_eq, rfl⟩ := map_eq_ok looped
    have same : name = event.name := by
      have first := read 0 event rfl
      rw [Nat.add_zero] at first
      rw [IniFile.eventName, first] at found
      cases found
      rfl
    have own : object.name = name := by
      unfold create at created
      split at created
      · split at created
        · cases created
          rfl
        · cases created
      · cases created
    rw [map_cons, map_cons, own, same, hypothesis ?_ others_eq]
    intro position event found
    rw [Nat.add_assoc, Nat.add_comm 1]
    exact read (position + 1) event found

theorem unserializeLoop_eq {cp : IniFile} {tick : Nat} {objects : List Object}
    (made : createEvents cp = .ok objects) (queues : List EventQueue) :
    unserializeLoop cp tick queues = .ok ⟨queues.map fun queue => { queue with curTick := tick },
      queues.flatMap fun _ => objects⟩ := by
  induction queues with
  | nil => rfl
  | cons _ _ hypothesis =>
    rw [unserializeLoop, EventQueue.unserialize, made, hypothesis]
    rfl

/-- The checkpoint as it is read. -/
def written (curTick : Nat) (queues : List (List Event)) : IniFile :=
  .load ((serialize curTick queues).flatMap Block.lines)

theorem roundTrip_eq (curTick : Nat) (queues : List (List Event)) :
    roundTrip curTick queues =
      unserializeLoop (written curTick queues) curTick (queues.map fun _ => ⟨0, []⟩) := by
  obtain ⟨tick, count⟩ := load_globals curTick queues
  rw [roundTrip, unserialize, IniFile.number, tick, IniFile.number, count, map_const']
  rfl

theorem roundTrip_of_createEvents {objects : List Object}
    (made : createEvents (written curTick queues) = .ok objects) :
    roundTrip curTick queues =
      .ok ⟨queues.map fun _ => ⟨curTick, []⟩, queues.flatMap fun _ => objects⟩ := by
  rw [roundTrip_eq, unserializeLoop_eq made, map_map, flatMap_map]
  rfl

theorem roundTrip_ok {front : List (List Event)} {last : List Event} {restored : Restored}
    (restores : roundTrip curTick (front ++ [last]) = .ok restored) :
    restored.queues = (front ++ [last]).map (fun _ => ⟨curTick, []⟩) ∧
      restored.objects.map Object.name =
        (front ++ [last]).flatMap fun _ => (serialized last).map Event.name := by
  obtain ⟨numEvents, names⟩ := load_mainEventQueue curTick front last
  obtain ⟨objects, made⟩ : ∃ objects, createEvents (written curTick (front ++ [last])) =
      .ok objects := by
    obtain ⟨_, _, some⟩ := exists_cons_of_ne_nil (append_ne_nil_of_right_ne_nil front
      (cons_ne_nil last []))
    rw [roundTrip_eq] at restores
    generalize written curTick (front ++ [last]) = cp at restores ⊢
    rw [some] at restores
    obtain ⟨_, unserialized, -⟩ := bind_eq_ok restores
    obtain ⟨objects, made, -⟩ := bind_eq_ok unserialized
    exact ⟨objects, made⟩
  have named : objects.map Object.name = (serialized last).map Event.name := by
    rw [createEvents, IniFile.number, written, numEvents] at made
    refine createLoop_names (fun position event found => ?_) made
    rw [Nat.zero_add]
    exact names position event found
  rw [roundTrip_of_createEvents made] at restores
  cases restores
  exact ⟨rfl, by rw [map_flatMap, named]⟩

/-- A round trip restores the tick and the queues exactly if no queue held an event that is written.
If it does not stop with an error it leaves every queue empty, and the objects it makes are, once
for every queue, those of the last queue. -/
theorem globals_round_trip_iff (curTick : Nat) (queues : List (List Event)) :
    ((∃ objects, roundTrip curTick queues =
        .ok ⟨queues.map fun events => ⟨curTick, serialized events⟩, objects⟩) ↔
      ∀ events ∈ queues, serialized events = []) ∧
    ∀ restored, roundTrip curTick queues = .ok restored →
      restored.queues = queues.map (fun _ => ⟨curTick, []⟩) ∧
      ∀ last ∈ queues.getLast?, restored.objects.map Object.name =
        queues.flatMap fun _ => (serialized last).map Event.name := by
  rcases eq_nil_or_concat queues with rfl | ⟨front, last, rfl⟩
  · refine ⟨⟨fun _ events member => absurd member not_mem_nil, fun _ => ⟨[], roundTrip_eq _ _⟩⟩,
      fun restored restores => ?_⟩
    rw [roundTrip_eq] at restores
    cases restores
    exact ⟨rfl, nofun⟩
  · rw [concat_eq_append]
    refine ⟨⟨fun ⟨objects, restores⟩ events member => ?_, fun empty => ?_⟩,
      fun restored restores => ?_⟩
    · have queues := (roundTrip_ok restores).1
      have same := map_inj_left.mp queues events member
      exact congrArg EventQueue.events same
    · have none : serialized last = [] := empty last (mem_append_right _ mem_cons_self)
      have made : createEvents (written curTick (front ++ [last])) = .ok [] := by
        rw [createEvents, IniFile.number, written, (load_mainEventQueue curTick front last).1, none]
        rfl
      rw [roundTrip_of_createEvents made]
      refine ⟨_, congrArg (fun queues => Except.ok (Restored.mk queues _)) ?_⟩
      exact map_congr_left fun events member => by rw [empty events member]
    · obtain ⟨queues, objects⟩ := roundTrip_ok restores
      refine ⟨queues, fun other found => ?_⟩
      have same : last = other := by simpa using found
      cases same
      exact objects

/-- One queue with one event: the restored queue has none. -/
theorem link_event_lost :
    (roundTrip 5 [[⟨0, .linkDelayEvent, true, 7, 0, 8⟩]]).toOption.map Restored.queues =
        some [⟨5, []⟩] ∧
      serialized [⟨0, .linkDelayEvent, true, 7, 0, 8⟩] ≠ [] := by
  decide +kernel

end Gem5.Sim.Globals
