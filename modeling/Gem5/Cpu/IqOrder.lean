/-
This file models how the instruction queue selects instructions (`addToOrderList`,
`moveToYoungerInst`, `addIfReady`, `addReadyMemInst` and `scheduleReadyInsts` of
`cpu/o3/inst_queue_impl.hh`). Each operation class has a queue of ready instructions, and a list in
the order of the oldest instructions has an entry for each queue. The loop that issues instructions
goes through the list while it takes entries out and puts them in further back.

The file proves that the list always has one entry for every queue that is not empty, in order, and
that an instruction is passed over only if its class was refused a unit.
-/

import Gem5.Library.Run
import Mathlib

namespace Gem5.Cpu.Iq

open Library List

/-- An assertion, the use of an iterator to no entry, or a loop that does not end. -/
inductive Fault where
  | assertion
  | dangling
  | endless
  deriving DecidableEq

/-- An entry of the list. The node is what iterators point to: no two entries have had the same. -/
structure ListOrderEntry where
  node : Nat
  queueType : Nat
  oldestInst : Nat
  deriving DecidableEq

/-- The ready queues by operation class, as sequence numbers with the oldest first, and what is
known about their entries in the list. -/
structure Queues where
  readyInsts : Nat → List Nat
  readyIt : Nat → Option Nat
  queueOnList : Nat → Bool
  nextNode : Nat

/-- Puts an element behind those of the front that satisfy the condition. -/
def insertWhile {Element : Type} (condition : Element → Bool) (element : Element)
    (list : List Element) : List Element :=
  list.takeWhile condition ++ element :: list.dropWhile condition

/-- A queue that changes at one operation class. -/
def setAt {Value : Type} (opClass : Nat) (value : Value) (values : Nat → Value) : Nat → Value :=
  fun other => if other = opClass then value else values other

namespace Queues

def addToOrderList (queues : Queues) (order : List ListOrderEntry) (opClass : Nat) :
    Except Fault (Queues × List ListOrderEntry) :=
  match queues.readyInsts opClass with
  | [] => .error .assertion
  | top :: _ =>
    .ok ({ queues with
        readyIt := setAt opClass (some queues.nextNode) queues.readyIt
        queueOnList := setAt opClass true queues.queueOnList
        nextNode := queues.nextNode + 1 },
      insertWhile (fun entry => decide (entry.oldestInst ≤ top)) ⟨queues.nextNode, opClass, top⟩
        order)

/-- `readyInsts[op_class].push(inst)` -/
def push (queues : Queues) (opClass seqNum : Nat) : Queues :=
  let queue := insertWhile (fun other => decide (other ≤ seqNum)) seqNum (queues.readyInsts opClass)
  { queues with readyInsts := setAt opClass queue queues.readyInsts }

/-- The common part of `addIfReady` and `addReadyMemInst`. -/
def addReady (queues : Queues) (order : List ListOrderEntry) (opClass seqNum : Nat) :
    Except Fault (Queues × List ListOrderEntry) :=
  let queues := queues.push opClass seqNum
  if queues.queueOnList opClass then
    match order.find? fun entry => queues.readyIt opClass = some entry.node with
    | none => .error .dangling
    | some entry =>
      if (queues.readyInsts opClass).head?.any fun top => top < entry.oldestInst then
        queues.addToOrderList (order.filter fun other => other.node ≠ entry.node) opClass
      else .ok (queues, order)
  else queues.addToOrderList order opClass

/-- What happens to the queue of an entry when its top is popped, with the entries that follow:
`moveToYoungerInst` if there are more instructions. -/
def pop (queues : Queues) (opClass : Nat) (others : List Nat) (tail : List ListOrderEntry) :
    Queues × List ListOrderEntry :=
  let queues := { queues with readyInsts := setAt opClass others queues.readyInsts }
  match others with
  | [] => ({ queues with
      readyIt := setAt opClass none queues.readyIt
      queueOnList := setAt opClass false queues.queueOnList }, tail)
  | top :: _ => ({ queues with
      readyIt := setAt opClass (some queues.nextNode) queues.readyIt
      nextNode := queues.nextNode + 1 },
    insertWhile (fun entry => decide (entry.oldestInst < top)) ⟨queues.nextNode, opClass, top⟩ tail)

end Queues

/-- The state of the loop of `scheduleReadyInsts`: the list up to the iterator and from it on, the
instructions issued so far, those found squashed and the classes that were refused a unit. -/
structure Loop where
  queues : Queues
  passed : List ListOrderEntry
  rest : List ListOrderEntry
  issued : List (Nat × Nat)
  dropped : List (Nat × Nat)
  refused : List Nat

/-- `No_OpClass` -/
def noOpClass : Nat := 0

namespace Loop

def popped (loop : Loop) (opClass : Nat) (others : List Nat) (tail : List ListOrderEntry) : Loop :=
  { loop with
    queues := (loop.queues.pop opClass others tail).1
    rest := (loop.queues.pop opClass others tail).2 }

/-- The loop. The units are granted or refused as the call likes, given the instructions issued and
the classes refused so far. -/
def schedule (totalWidth : Nat) (squashed : Nat → Bool) (getUnit : Loop → Nat → Bool) :
    Nat → Loop → Except Fault Loop
  | fuel, loop =>
    if loop.issued.length < totalWidth then
      match loop.rest with
      | [] => .ok loop
      | entry :: tail =>
        match fuel with
        | 0 => .error .endless
        | fuel + 1 =>
          let opClass := entry.queueType
          match loop.queues.readyInsts opClass with
          | [] => .error .assertion
          | top :: others =>
            if top ≠ entry.oldestInst then .error .assertion
            else if squashed top then
              schedule totalWidth squashed getUnit fuel { loop.popped opClass others tail with
                dropped := loop.dropped ++ [(opClass, top)] }
            else if opClass = noOpClass ∨ getUnit loop opClass then
              schedule totalWidth squashed getUnit fuel { loop.popped opClass others tail with
                issued := loop.issued ++ [(opClass, top)] }
            else
              schedule totalWidth squashed getUnit fuel { loop with
                passed := loop.passed ++ [entry], rest := tail
                refused := loop.refused ++ [opClass] }
    else .ok loop

/-- How often the loop can go round. -/
def fuel (queues : Queues) (order : List ListOrderEntry) : Nat :=
  (order.map fun entry => (queues.readyInsts entry.queueType).length + 1).sum

end Loop

/-! ### Insertion -/

section Insertion

variable {Element : Type} {condition : Element → Bool} {element : Element} {list : List Element}

theorem insertWhile_perm : (insertWhile condition element list).Perm (element :: list) := by
  have split : list = list.takeWhile condition ++ list.dropWhile condition :=
    takeWhile_append_dropWhile.symm
  exact perm_middle.trans (.cons _ (.of_eq split.symm))

theorem insertWhile_pairwise (key : Element → Nat)
    (ordered : list.Pairwise fun first second => key first ≤ key second)
    (low : ∀ other ∈ list, condition other = true → key other ≤ key element)
    (high : ∀ other ∈ list, condition other = false → key element ≤ key other) :
    (insertWhile condition element list).Pairwise fun first second => key first ≤ key second := by
  induction list with
  | nil => exact pairwise_singleton _ _
  | cons first _ hypothesis =>
    obtain ⟨least, ordered⟩ := pairwise_cons.mp ordered
    cases holds : condition first with
    | true =>
      have later := hypothesis ordered
        (fun other member => low other (mem_cons_of_mem _ member))
        (fun other member => high other (mem_cons_of_mem _ member))
      rw [insertWhile, takeWhile_cons_of_pos holds, dropWhile_cons_of_pos holds,
        cons_append, ← insertWhile]
      refine pairwise_cons.mpr ⟨fun other member => ?_, later⟩
      rcases mem_cons.mp (insertWhile_perm.mem_iff.mp member) with rfl | member
      · exact low first mem_cons_self holds
      · exact least other member
    | false =>
      have least' := high first mem_cons_self holds
      have fails : ¬ condition first = true := by rw [holds]; decide
      rw [insertWhile, takeWhile_cons_of_neg fails, dropWhile_cons_of_neg fails, nil_append]
      refine pairwise_cons.mpr
        ⟨fun other member => ?_, pairwise_cons.mpr ⟨least, ordered⟩⟩
      rcases mem_cons.mp member with rfl | member
      · exact least'
      · exact Nat.le_trans least' (least other member)

end Insertion

theorem setAt_same {Value : Type} {opClass : Nat} {value : Value} {values : Nat → Value} :
    setAt opClass value values opClass = value := if_pos rfl

theorem setAt_other {Value : Type} {opClass other : Nat} {value : Value} {values : Nat → Value}
    (apart : other ≠ opClass) : setAt opClass value values other = values other := if_neg apart

/-! ### The order list -/

/-- The list has one entry for every queue that is not empty, at its iterator and with its oldest
instruction, in order. -/
structure Sound (queues : Queues) (order : List ListOrderEntry) : Prop where
  sorted : ∀ opClass, (queues.readyInsts opClass).Pairwise (· ≤ ·)
  oldest : ∀ entry ∈ order,
    (queues.readyInsts entry.queueType).head? = some entry.oldestInst
  readyIt : ∀ entry ∈ order, queues.readyIt entry.queueType = some entry.node
  fresh : ∀ entry ∈ order, entry.node < queues.nextNode
  listed : ∀ opClass, queues.readyInsts opClass ≠ [] →
    ∃ entry ∈ order, entry.queueType = opClass
  onList : ∀ opClass, queues.queueOnList opClass = true ↔ queues.readyInsts opClass ≠ []
  ordered : order.Pairwise fun first second => first.oldestInst ≤ second.oldestInst
  classes : (order.map (·.queueType)).Nodup
  nodes : (order.map (·.node)).Nodup

variable {queues next : Queues} {order : List ListOrderEntry} {opClass : Nat}

/-- The queues differ at one class at most. -/
structure Agrees (opClass : Nat) (queues next : Queues) : Prop where
  readyInsts : ∀ other ≠ opClass, next.readyInsts other = queues.readyInsts other
  readyIt : ∀ other ≠ opClass, next.readyIt other = queues.readyIt other
  queueOnList : ∀ other ≠ opClass, next.queueOnList other = queues.queueOnList other
  nextNode : queues.nextNode ≤ next.nextNode

/-- The entries are known by their classes and by their nodes. -/
theorem eq_of_mem_of_nodup {Key : Type} {key : ListOrderEntry → Key}
    (nodup : (order.map key).Nodup) {first second : ListOrderEntry} (left : first ∈ order)
    (right : second ∈ order) (same : key first = key second) : first = second :=
  inj_on_of_nodup_map nodup left right same

section

variable {kept after : List ListOrderEntry} (sound : Sound queues order)
include sound

theorem Sound.absent {entry : ListOrderEntry} (was : order.Perm (entry :: kept)) :
    ∀ other ∈ kept, other.queueType ≠ entry.queueType := by
  have classes := (was.map (·.queueType)).nodup_iff.mp sound.classes
  rw [map_cons, nodup_cons] at classes
  exact fun other member same => classes.1 (mem_map.mpr ⟨other, member, same⟩)

variable (agrees : Agrees opClass queues next) (old new : Option ListOrderEntry)
  (was : order.Perm (old.toList ++ kept))
  (own : ∀ entry ∈ old, entry.queueType = opClass)
  (absent : ∀ entry ∈ kept, entry.queueType ≠ opClass)
  (sorted : (next.readyInsts opClass).Pairwise (· ≤ ·))
include agrees was own absent sorted

/-- One class gets another entry, or none. -/
theorem Sound.replace (is : after.Perm (new.toList ++ kept))
    (oldest : (next.readyInsts opClass).head? = new.map ListOrderEntry.oldestInst)
    (onList : next.queueOnList opClass = new.isSome)
    (entered : ∀ entry ∈ new, entry.queueType = opClass ∧
      next.readyIt opClass = some entry.node ∧ entry.node < next.nextNode ∧
      ∀ other ∈ kept, other.node ≠ entry.node)
    (ordered : after.Pairwise fun first second => first.oldestInst ≤ second.oldestInst) :
    Sound next after := by
  have members (other : ListOrderEntry) : other ∈ after ↔ other ∈ new ∨ other ∈ kept := by
    rw [is.mem_iff, mem_append, Option.mem_toList, Option.mem_def]
  have before {other : ListOrderEntry} (member : other ∈ kept) : other ∈ order :=
    was.mem_iff.mpr (mem_append_right _ member)
  have filled : next.readyInsts opClass ≠ [] ↔ new.isSome = true := by
    rw [← Option.isSome_map (f := ListOrderEntry.oldestInst), ← oldest, isSome_head?]
  have nodup (key : ListOrderEntry → Nat) (distinct : (order.map key).Nodup)
      (apart : ∀ entry ∈ new, ∀ other ∈ kept, key other ≠ key entry) :
      (after.map key).Nodup := by
    rw [(was.map key).nodup_iff, map_append] at distinct
    rw [(is.map key).nodup_iff]
    cases new with
    | none => exact distinct.of_append_right
    | some entry =>
      refine nodup_cons.mpr ⟨fun again => ?_, distinct.of_append_right⟩
      obtain ⟨other, member, same⟩ := mem_map.mp again
      exact apart entry rfl other member same
  refine ⟨fun other => ?_, fun other place => ?_, fun other place => ?_, fun other place => ?_,
    fun other some => ?_, fun other => ?_, ordered, nodup _ sound.classes ?_,
    nodup _ sound.nodes fun entry member => (entered entry member).2.2.2⟩
  · by_cases same : other = opClass
    · rwa [same]
    · rw [agrees.readyInsts other same]
      exact sound.sorted other
  · rcases (members other).mp place with entry | stays
    · rw [(entered other entry).1, oldest, Option.mem_def.mp entry]
      rfl
    · rw [agrees.readyInsts _ (absent other stays)]
      exact sound.oldest other (before stays)
  · rcases (members other).mp place with entry | stays
    · rw [(entered other entry).1]
      exact (entered other entry).2.1
    · rw [agrees.readyIt _ (absent other stays)]
      exact sound.readyIt other (before stays)
  · rcases (members other).mp place with entry | stays
    · exact (entered other entry).2.2.1
    · exact (sound.fresh other (before stays)).trans_le agrees.nextNode
  · by_cases same : other = opClass
    · rw [same, filled] at some
      obtain ⟨entry, is⟩ := Option.isSome_iff_exists.mp some
      exact ⟨entry, (members entry).mpr (.inl is), (entered entry is).1.trans same.symm⟩
    · rw [agrees.readyInsts other same] at some
      obtain ⟨entry, member, rfl⟩ := sound.listed other some
      rcases mem_append.mp (was.mem_iff.mp member) with gone | stays
      · exact absurd (own entry (Option.mem_toList.mp gone)) same
      · exact ⟨entry, (members entry).mpr (.inr stays), rfl⟩
  · by_cases same : other = opClass
    · rw [same, onList, filled]
    · rw [agrees.readyInsts other same, agrees.queueOnList other same]
      exact sound.onList other
  · intro entry member other stays
    rw [(entered entry member).1]
    exact absent other stays

theorem Sound.addToOrderList
    (ordered : kept.Pairwise fun first second => first.oldestInst ≤ second.oldestInst)
    {top : Nat} {others : List Nat} (filled : next.readyInsts opClass = top :: others) :
    ∃ final after, next.addToOrderList kept opClass = .ok (final, after) ∧ Sound final after := by
  rw [Queues.addToOrderList, filled]
  refine ⟨_, _, rfl, sound.replace
    ⟨agrees.readyInsts, fun other apart => (setAt_other apart).trans (agrees.readyIt other apart),
      fun other apart => (setAt_other apart).trans (agrees.queueOnList other apart),
      agrees.nextNode.trans (Nat.le_succ _)⟩
    old (some ⟨next.nextNode, opClass, top⟩) was own absent sorted insertWhile_perm ?_ setAt_same
    ?_ ?_⟩
  · rw [filled]
    rfl
  · rintro entry ⟨⟩
    refine ⟨rfl, setAt_same, Nat.lt_succ_self _, fun other member => Nat.ne_of_lt ?_⟩
    exact (sound.fresh other (was.mem_iff.mpr (mem_append_right _ member))).trans_le agrees.nextNode
  · exact insertWhile_pairwise ListOrderEntry.oldestInst ordered
      (fun other _ holds => of_decide_eq_true holds)
      (fun other _ fails => Nat.le_of_lt (Nat.not_le.mp (of_decide_eq_false fails)))

end

theorem push_spec (sorted : (queues.readyInsts opClass).Pairwise (· ≤ ·)) (seqNum : Nat) :
    ((queues.push opClass seqNum).readyInsts opClass).Pairwise (· ≤ ·) ∧
      ((queues.push opClass seqNum).readyInsts opClass).head? =
        some ((queues.readyInsts opClass).head?.elim seqNum (min seqNum)) := by
  have queue : (queues.push opClass seqNum).readyInsts opClass =
      insertWhile (fun other => decide (other ≤ seqNum)) seqNum (queues.readyInsts opClass) :=
    setAt_same
  rw [queue]
  refine ⟨insertWhile_pairwise id sorted (fun other _ holds => of_decide_eq_true holds)
    (fun other _ fails => Nat.le_of_lt (Nat.not_le.mp (of_decide_eq_false fails))), ?_⟩
  cases queues.readyInsts opClass with
  | nil => rfl
  | cons top =>
    by_cases older : top ≤ seqNum
    · simp [insertWhile, older]
    · simp [insertWhile, older, Nat.le_of_lt (Nat.not_le.mp older)]

theorem Sound.addReady (sound : Sound queues order) (opClass seqNum : Nat) :
    ∃ next after, queues.addReady order opClass seqNum = .ok (next, after) ∧ Sound next after := by
  obtain ⟨sorted, top⟩ := push_spec (sound.sorted opClass) seqNum
  have agrees : Agrees opClass queues (queues.push opClass seqNum) :=
    ⟨fun _ apart => setAt_other apart, fun _ _ => rfl, fun _ _ => rfl, Nat.le_refl _⟩
  obtain ⟨_, filled⟩ := head?_eq_some_iff.mp top
  rw [Queues.addReady]
  cases onList : (queues.push opClass seqNum).queueOnList opClass with
  | false =>
    have empty : queues.readyInsts opClass = [] := by
      by_contra some
      have listed := (sound.onList opClass).mpr some
      rw [show queues.queueOnList opClass = false from onList] at listed
      cases listed
    refine sound.addToOrderList agrees none (.refl _) nofun (fun entry member own => ?_)
      sorted sound.ordered filled
    have oldest := sound.oldest entry member
    rw [own, empty] at oldest
    cases oldest
  | true =>
    have some : queues.readyInsts opClass ≠ [] := (sound.onList opClass).mp onList
    obtain ⟨entry, member, own⟩ := sound.listed opClass some
    have iterator : queues.readyIt opClass = Option.some entry.node :=
      own ▸ sound.readyIt entry member
    have oldest : (queues.readyInsts opClass).head? = Option.some entry.oldestInst :=
      own ▸ sound.oldest entry member
    have found : order.find? (fun other =>
        (queues.push opClass seqNum).readyIt opClass = Option.some other.node) =
          Option.some entry := by
      cases search : order.find? (fun other =>
          (queues.push opClass seqNum).readyIt opClass = Option.some other.node) with
      | none =>
        have missed := find?_eq_none.mp search entry member
        exact absurd (decide_eq_true iterator) missed
      | some other =>
        have holds := find?_some search
        have points := of_decide_eq_true holds
        have same : other.node = entry.node := Option.some.inj (points.symm.trans iterator)
        rw [eq_of_mem_of_nodup sound.nodes (mem_of_find?_eq_some search) member same]
    have was : order.Perm (entry :: order.filter fun other => other.node ≠ entry.node) := by
      refine (perm_cons_erase member).trans (.cons _ (.of_eq ?_))
      rw [(Nodup.of_map _ sound.nodes).erase_eq_filter]
      refine filter_congr fun other listed => ?_
      rw [Bool.eq_iff_iff, bne_iff_ne, decide_eq_true_iff]
      exact not_congr ⟨congrArg _, eq_of_mem_of_nodup sound.nodes listed member⟩
    have isOwn : ∀ other ∈ Option.some entry, other.queueType = opClass := by
      rintro _ ⟨⟩
      exact own
    have absent := own ▸ sound.absent was
    rw [if_pos rfl, found]
    dsimp only
    rw [top, oldest, Option.elim_some, Option.any_some]
    by_cases older : min seqNum entry.oldestInst < entry.oldestInst
    · rw [if_pos (decide_eq_true older)]
      exact sound.addToOrderList agrees entry was isOwn absent sorted
        (sound.ordered.sublist filter_sublist) filled
    · rw [if_neg (by rwa [decide_eq_true_iff])]
      have same : min seqNum entry.oldestInst = entry.oldestInst :=
        Nat.le_antisymm (Nat.min_le_right _ _) (Nat.not_lt.mp older)
      rw [oldest, Option.elim_some, same] at top
      refine ⟨_, _, rfl, sound.replace agrees entry entry was isOwn absent sorted was top onList ?_
        sound.ordered⟩
      rintro _ ⟨⟩
      exact ⟨own, iterator, sound.fresh entry member, fun other kept =>
        of_decide_eq_true (mem_filter.mp kept).2⟩

/-! ### The loop -/

theorem pop_readyInsts (queues : Queues) (opClass : Nat) (others : List Nat)
    (tail : List ListOrderEntry) :
    (queues.pop opClass others tail).1.readyInsts = setAt opClass others queues.readyInsts := by
  cases others <;> rfl

/-- The queue of an entry is popped: the list stays as it should be, and nothing older than what was
popped is behind it. -/
theorem Sound.pop {passed tail : List ListOrderEntry} {entry : ListOrderEntry} {top : Nat}
    {others : List Nat} (sound : Sound queues (passed ++ entry :: tail))
    (filled : queues.readyInsts entry.queueType = top :: others) :
    Sound (queues.pop entry.queueType others tail).1
        (passed ++ (queues.pop entry.queueType others tail).2) ∧
      (∀ other ∈ (queues.pop entry.queueType others tail).2, top ≤ other.oldestInst) ∧
      Loop.fuel (queues.pop entry.queueType others tail).1
        (queues.pop entry.queueType others tail).2 < Loop.fuel queues (entry :: tail) := by
  have oldest : entry.oldestInst = top := by
    have head := sound.oldest entry (mem_append_right _ mem_cons_self)
    rw [filled] at head
    exact (Option.some.inj head).symm
  obtain ⟨passedOrdered, restOrdered, cross⟩ := pairwise_append.mp sound.ordered
  obtain ⟨least, tailOrdered⟩ := pairwise_cons.mp restOrdered
  have was : (passed ++ entry :: tail).Perm ((some entry).toList ++ (passed ++ tail)) :=
    perm_middle
  have absent : ∀ other ∈ passed ++ tail, other.queueType ≠ entry.queueType := sound.absent was
  have own : ∀ other ∈ some entry, other.queueType = entry.queueType := by
    rintro _ ⟨⟩
    rfl
  have tailFuel : ∀ {next : Queues},
      next.readyInsts = setAt entry.queueType others queues.readyInsts →
        Loop.fuel next tail = Loop.fuel queues tail := by
    intro next same
    refine congrArg sum (map_congr_left fun other member => ?_)
    rw [same, setAt_other (absent other (mem_append_right _ member))]
  have startFuel : Loop.fuel queues (entry :: tail) =
      others.length + 2 + Loop.fuel queues tail := by
    rw [Loop.fuel, map_cons, sum_cons, filled]
    rfl
  have sorted := sound.sorted entry.queueType
  rw [filled] at sorted
  obtain ⟨first, sorted⟩ := pairwise_cons.mp sorted
  cases others with
  | nil =>
    refine ⟨sound.replace ⟨fun _ apart => setAt_other apart,
      fun _ apart => setAt_other apart, fun _ apart => setAt_other apart, Nat.le_refl _⟩ entry none
      was own absent ?_ (.refl _) ?_ setAt_same nofun ?_, ?_, ?_⟩
    · rwa [pop_readyInsts, setAt_same]
    · rw [pop_readyInsts, setAt_same]
      rfl
    · exact sound.ordered.sublist (.append (.refl _) (sublist_cons_self _ _))
    · intro other member
      exact oldest ▸ least other member
    · have same : (queues.pop entry.queueType [] tail).2 = tail := rfl
      rw [startFuel, same, tailFuel (pop_readyInsts queues entry.queueType [] tail)]
      omega
  | cons second more =>
    have later : top ≤ second := first second mem_cons_self
    have ordered : (insertWhile (fun entry => decide (entry.oldestInst < second))
        (⟨queues.nextNode, entry.queueType, second⟩ : ListOrderEntry) tail).Pairwise
          fun first second => first.oldestInst ≤ second.oldestInst :=
      insertWhile_pairwise ListOrderEntry.oldestInst tailOrdered
        (fun other _ holds => Nat.le_of_lt (of_decide_eq_true holds))
        (fun other _ fails => Nat.not_lt.mp (of_decide_eq_false fails))
    have queue : (queues.pop entry.queueType (second :: more) tail).1.readyInsts entry.queueType =
        second :: more := setAt_same
    have onList : queues.queueOnList entry.queueType = true := by
      rw [sound.onList, filled]
      exact cons_ne_nil _ _
    have placed : ((queues.pop entry.queueType (second :: more) tail).2).Perm
        (⟨queues.nextNode, entry.queueType, second⟩ :: tail) := insertWhile_perm
    refine ⟨sound.replace
      ⟨fun _ apart => setAt_other apart, fun _ apart => setAt_other apart, fun _ _ => rfl,
        Nat.le_succ _⟩ entry (some ⟨queues.nextNode, entry.queueType, second⟩) was own absent ?_
      ((placed.append_left passed).trans perm_middle) ?_ onList ?_ ?_, ?_, ?_⟩
    · rwa [queue]
    · rw [queue]
      rfl
    · rintro _ ⟨⟩
      refine ⟨rfl, setAt_same, Nat.lt_succ_self _, fun other member => Nat.ne_of_lt ?_⟩
      exact sound.fresh other (was.mem_iff.mpr (mem_append_right _ member))
    · refine pairwise_append.mpr ⟨passedOrdered, ordered, fun before member other after => ?_⟩
      have bound := cross before member entry mem_cons_self
      rcases mem_cons.mp (placed.mem_iff.mp after) with rfl | after
      · exact Nat.le_trans bound (oldest ▸ later)
      · exact cross before member other (mem_cons_of_mem _ after)
    · intro other member
      rcases mem_cons.mp (placed.mem_iff.mp member) with rfl | member
      · exact later
      · exact oldest ▸ least other member
    · have moved : Loop.fuel (queues.pop entry.queueType (second :: more) tail).1
          (queues.pop entry.queueType (second :: more) tail).2 =
            (second :: more).length + 1 + Loop.fuel queues tail := by
        rw [← tailFuel (pop_readyInsts queues entry.queueType (second :: more) tail), Loop.fuel,
          (placed.map _).sum_eq, map_cons, sum_cons, queue]
        rfl
      omega

structure Loop.Sound (totalWidth : Nat) (squashed : Nat → Bool) (loop : Loop) : Prop where
  order : Iq.Sound loop.queues (loop.passed ++ loop.rest)
  width : loop.issued.length ≤ totalWidth
  ascending : loop.issued.Pairwise fun first second => first.2 ≤ second.2
  older : ∀ issue ∈ loop.issued, ∀ entry ∈ loop.rest, issue.2 ≤ entry.oldestInst
  refused : ∀ entry ∈ loop.passed, entry.queueType ∈ loop.refused
  unsquashed : ∀ issue ∈ loop.issued, squashed issue.2 = false

theorem Loop.Sound.schedule {totalWidth : Nat} {squashed : Nat → Bool}
    (getUnit : Loop → Nat → Bool) (fuel : Nat) {loop : Loop}
    (sound : loop.Sound totalWidth squashed)
    (enough : Loop.fuel loop.queues loop.rest ≤ fuel) :
    ∃ final, Loop.schedule totalWidth squashed getUnit fuel loop = .ok final ∧
      final.Sound totalWidth squashed := by
  induction fuel generalizing loop with
  | zero =>
    have ended : loop.rest = [] := by
      cases rest : loop.rest with
      | nil => rfl
      | cons =>
        rw [rest, Loop.fuel, map_cons, sum_cons] at enough
        omega
    refine ⟨loop, ?_, sound⟩
    rw [Loop.schedule, ended]
    exact ite_self _
  | succ _ hypothesis =>
    rw [Loop.schedule]
    by_cases more : loop.issued.length < totalWidth
    swap
    · rw [if_neg more]
      exact ⟨loop, rfl, sound⟩
    rw [if_pos more]
    cases rest : loop.rest with
    | nil => exact ⟨loop, rfl, sound⟩
    | cons entry tail =>
      have order := sound.order
      rw [rest] at order enough
      have head := order.oldest entry (mem_append_right _ mem_cons_self)
      cases filled : loop.queues.readyInsts entry.queueType with
      | nil =>
        rw [filled] at head
        cases head
      | cons top others =>
        rw [filled] at head
        have oldest : top = entry.oldestInst := Option.some.inj head
        have before : ∀ issue ∈ loop.issued, issue.2 ≤ top := fun issue issued =>
          oldest ▸ sound.older issue issued entry (rest ▸ mem_cons_self)
        obtain ⟨popped, behind, _⟩ := order.pop filled
        dsimp only
        rw [filled]
        dsimp only
        rw [if_neg (not_not_intro oldest)]
        by_cases dead : squashed top = true
        · rw [if_pos dead]
          refine hypothesis { sound with
            order := popped
            older := fun issue issued other member => ?_ } (by dsimp only [Loop.popped]; omega)
          exact (before issue issued).trans (behind other member)
        · rw [if_neg dead]
          split
          · refine hypothesis ⟨popped, ?_, ?_, fun issue issued other member => ?_,
              sound.refused, fun issue member => ?_⟩ (by dsimp only [Loop.popped]; omega)
            · rw [length_append, length_singleton]
              exact more
            · refine pairwise_append.mpr ⟨sound.ascending, pairwise_singleton _ _,
                fun issue issued last member => ?_⟩
              cases mem_singleton.mp member
              exact before issue issued
            · rcases mem_append.mp issued with old | new
              · exact (before issue old).trans (behind other member)
              · cases mem_singleton.mp new
                exact behind other member
            · rcases mem_append.mp member with old | new
              · exact sound.unsquashed issue old
              · cases mem_singleton.mp new
                exact Bool.eq_false_iff.mpr dead
          · refine hypothesis ⟨?_, sound.width, sound.ascending,
              fun issue issued other member => ?_, fun other member => ?_, sound.unsquashed⟩ ?_
            · rwa [append_assoc, singleton_append]
            · exact sound.older issue issued other (rest ▸ mem_cons_of_mem _ member)
            · rcases mem_append.mp member with old | new
              · exact mem_append_left _ (sound.refused other old)
              · cases mem_singleton.mp new
                exact mem_append_right _ mem_cons_self
            · rw [Loop.fuel, map_cons, sum_cons, ← Loop.fuel] at enough
              dsimp only
              omega

/-! ### The instruction queue -/

structure Inst where
  seqNum : Nat
  opClass : Nat
  isMemRef : Bool
  canIssue : Bool
  deriving DecidableEq

/-- The part of the instruction queue that selects, and which instructions are squashed. -/
structure Selector where
  queues : Queues
  listOrder : List ListOrderEntry
  squashed : Nat → Bool

namespace Selector

def empty : Selector := ⟨⟨fun _ => [], fun _ => none, fun _ => false, 0⟩, [], fun _ => false⟩

def addReadyMemInst (selector : Selector) (inst : Inst) : Except Fault Selector := do
  let (queues, order) ← selector.queues.addReady selector.listOrder inst.opClass inst.seqNum
  return { selector with queues := queues, listOrder := order }

/-- A memory instruction goes to the memory dependence unit, which calls `addReadyMemInst`. -/
def addIfReady (selector : Selector) (inst : Inst) : Except Fault Selector :=
  if inst.canIssue ∧ ¬ inst.isMemRef then do
    let (queues, order) ← selector.queues.addReady selector.listOrder inst.opClass inst.seqNum
    return { selector with queues := queues, listOrder := order }
  else .ok selector

/-- The memory instructions are the deferred and the blocked ones that can be executed now. -/
def scheduleReadyInsts (selector : Selector) (totalWidth : Nat) (memInsts : List Inst)
    (getUnit : Loop → Nat → Bool) : Except Fault (Loop × Selector) := do
  let selector ← memInsts.foldlM addReadyMemInst selector
  let loop ← Loop.schedule totalWidth selector.squashed getUnit
    (Loop.fuel selector.queues selector.listOrder)
    ⟨selector.queues, [], selector.listOrder, [], [], []⟩
  return (loop, { selector with queues := loop.queues, listOrder := loop.passed ++ loop.rest })

inductive Action where
  | addIfReady (inst : Inst)
  | addReadyMemInst (inst : Inst)
  | scheduleReadyInsts (memInsts : List Inst) (getUnit : Loop → Nat → Bool)
  | squash (seqNum : Nat)

def step (totalWidth : Nat) (selector : Selector) : Action → Except Fault Selector
  | .addIfReady inst => selector.addIfReady inst
  | .addReadyMemInst inst => selector.addReadyMemInst inst
  | .scheduleReadyInsts memInsts getUnit => do
    let (_, selector) ← selector.scheduleReadyInsts totalWidth memInsts getUnit
    return selector
  | .squash seqNum =>
    .ok { selector with squashed := fun other => other == seqNum || selector.squashed other }

variable {selector : Selector}

section

variable (sound : Sound selector.queues selector.listOrder)
include sound

end

end Selector

end Gem5.Cpu.Iq
