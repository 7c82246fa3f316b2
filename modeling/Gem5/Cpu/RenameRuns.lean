/-
This file proves the properties of the register renaming over whole runs. The histories
are undo logs: the map of a thread is the result of the renames that they record, so that
a squash gives back the map just after the youngest instruction that is kept. Every step
moves registers between the free lists, the maps and the histories and neither loses nor
doubles one.
-/

import Gem5.Cpu.Rename
import Mathlib.Algebra.Order.BigOperators.Group.Finset

namespace Gem5.Cpu.Rename

open Library List Function

variable {config : Config}

/-! ### Histories as undo logs -/

def undo (config : Config) (entry : RenameHistory) (map : RenameMap) : RenameMap :=
  if entry.newPhysReg ≠ entry.prevPhysReg then
    match config.classOf entry.archReg with
    | (.renamed kind, rel) => update map kind ((map kind).set rel entry.prevPhysReg)
    | (.misc, _) => map
  else map

/-- An entry of a register that is not really renamed, or one whose new mapping is in the
map. -/
def Records (config : Config) (map : RenameMap) (entry : RenameHistory) : Prop :=
  entry.newPhysReg = entry.prevPhysReg ∨
    entry.newPhysReg ≠ entry.prevPhysReg ∧ entry.archReg < config.maxRegIndex ∧
    ∃ kind rel, config.classOf entry.archReg = (.renamed kind, rel) ∧
      (map kind)[rel]? = some entry.newPhysReg ∧
      config.IsPhysReg kind entry.prevPhysReg ∧ config.IsPhysReg kind entry.newPhysReg

/-- Every entry of a history records the map that the younger entries are undone from. -/
def Linked (config : Config) : RenameMap → List RenameHistory → Prop
  | _, [] => True
  | map, entry :: older => Records config map entry ∧ Linked config (undo config entry map) older

theorem Linked.append {map : RenameMap} {history truncated : List RenameHistory}
    (linked : Linked config map (history ++ truncated)) : Linked config map history := by
  induction history generalizing map with
  | nil => trivial
  | cons _ _ hypothesis =>
    exact ⟨linked.1, hypothesis linked.2⟩

theorem Records.of_mem {map : RenameMap} {history : List RenameHistory}
    (linked : Linked config map history) {entry : RenameHistory} (member : entry ∈ history) :
    ∃ earlier, Records config earlier entry := by
  induction history generalizing map with
  | nil => cases member
  | cons _ _ hypothesis =>
    obtain rfl | later := mem_cons.mp member
    · exact ⟨map, linked.1⟩
    · exact hypothesis linked.2 later

/-! ### Single registers -/

/-- The registers are conserved, and the histories record the maps. -/
structure Conserved (state : State config) : Prop where
  occurrences : ∀ kind reg, state.occurrences kind reg =
    if config.IsPhysReg kind reg then 1 else 0
  length : ∀ tid kind, (state.renameMap tid kind).length = config.numRegs kind
  linked : ∀ tid, Linked config (state.renameMap tid) (state.historyBuffer tid)

theorem count_owned_le (state : State config) (tid : Fin config.numThreads) (kind : RenamedClass)
    (reg : Nat) :
    (state.freeList kind).count reg + (state.owned tid kind).count reg ≤
      state.occurrences kind reg := by
  refine Nat.add_le_add_left ?_ _
  exact Finset.single_le_sum (f := fun tid => (state.owned tid kind).count reg)
    (fun _ _ => Nat.zero_le _) (Finset.mem_univ tid)

namespace Conserved

variable {state : State config} {kind : RenamedClass} {reg : Nat} {tid : Fin config.numThreads}

section

variable (conserved : Conserved state)
include conserved

theorem isPhysReg_of_pos (present : 0 < state.occurrences kind reg) :
    config.IsPhysReg kind reg := by
  by_contra outside
  rw [conserved.occurrences, if_neg outside] at present
  exact Nat.lt_irrefl 0 present

theorem isPhysReg_of_mem (member : reg ∈ state.renameMap tid kind) :
    config.IsPhysReg kind reg := by
  refine conserved.isPhysReg_of_pos (lt_of_lt_of_le ?_ (count_owned_le state tid kind reg))
  exact Nat.add_pos_right _ (count_pos_iff.mpr (mem_append_left _ member))

theorem isPhysReg_of_free (member : reg ∈ state.freeList kind) : config.IsPhysReg kind reg :=
  conserved.isPhysReg_of_pos (Nat.add_pos_left (count_pos_iff.mpr member) _)

theorem ne_of_mem {free mapped : Nat}
    (unused : free ∈ state.freeList kind) (used : mapped ∈ state.renameMap tid kind) :
    free ≠ mapped := by
  rintro rfl
  have once := conserved.occurrences kind free
  have bound := count_owned_le state tid kind free
  have first : 0 < (state.freeList kind).count free := count_pos_iff.mpr unused
  have second : 0 < (state.owned tid kind).count free :=
    count_pos_iff.mpr (mem_append_left _ used)
  split at once <;> omega

theorem freeList_nodup (kind : RenamedClass) : (state.freeList kind).Nodup := by
  refine nodup_iff_count_le_one.mpr fun reg => ?_
  have once := conserved.occurrences kind reg
  rw [State.occurrences] at once
  split at once <;> omega

end

end Conserved

/-! ### Changes of one thread -/

/-- A state with other free lists, and another map and history of one thread. -/
def State.change (state : State config) (tid : Fin config.numThreads)
    (free : RenamedClass → List Nat) (map : RenameMap) (history : List RenameHistory) :
    State config :=
  ⟨free, update state.renameMap tid map,
    update state.historyBuffer tid history⟩

theorem State.setHistory_eq_change (state : State config) (tid : Fin config.numThreads)
    (history : List RenameHistory) :
    state.setHistory tid history =
      state.change tid state.freeList (state.renameMap tid) history := by
  rw [State.change, update_eq_self]
  rfl

variable {tid : Fin config.numThreads} {history : List RenameHistory} {kind : RenamedClass}
  {entry : RenameHistory} {state next : State config} {seqNum : Nat} {dest : RegClass × Nat}
  {dests : List (RegClass × Nat)}

/-- The other threads keep their maps and histories. -/
def Elsewhere (tid : Fin config.numThreads) (state next : State config) : Prop :=
  ∀ other, other ≠ tid → next.renameMap other = state.renameMap other ∧
    next.historyBuffer other = state.historyBuffer other

theorem Elsewhere.refl : Elsewhere tid state state := fun _ _ => ⟨rfl, rfl⟩

theorem Elsewhere.trans {final : State config} (first : Elsewhere tid state next)
    (second : Elsewhere tid next final) : Elsewhere tid state final := fun other different =>
  ⟨(second other different).1.trans (first other different).1,
    (second other different).2.trans (first other different).2⟩

theorem elsewhere_change (free : RenamedClass → List Nat) (map : RenameMap) :
    Elsewhere tid state (state.change tid free map history) := fun _ different =>
  ⟨update_of_ne different _ _, update_of_ne different _ _⟩

theorem Conserved.change (conserved : Conserved state)
    {free : RenamedClass → List Nat} {map : RenameMap}
    (moved : ∀ kind reg, (free kind).count reg +
        ((map kind).count reg + (held config kind history).count reg) =
      (state.freeList kind).count reg + ((state.renameMap tid kind).count reg +
        (held config kind (state.historyBuffer tid)).count reg))
    (length : ∀ kind, (map kind).length = config.numRegs kind)
    (linked : Linked config map history) :
    Conserved (state.change tid free map history) := by
  constructor
  · intro kind reg
    rw [← conserved.occurrences kind reg]
    have rest : ∑ other ∈ {tid}ᶜ, ((state.change tid free map history).owned other kind).count reg =
        ∑ other ∈ {tid}ᶜ, (state.owned other kind).count reg := by
      refine Finset.sum_congr rfl fun other member => ?_
      have different : other ≠ tid := by simpa using member
      rw [State.owned, State.owned]
      dsimp only [State.change]
      rw [update_of_ne different, update_of_ne different]
    rw [State.occurrences, State.occurrences, Fintype.sum_eq_add_sum_compl tid,
      Fintype.sum_eq_add_sum_compl tid, rest, ← add_assoc, ← add_assoc, State.owned, State.owned,
      count_append, count_append]
    dsimp only [State.change]
    rw [update_self, update_self, moved kind reg]
  · intro other kind
    dsimp only [State.change]
    rw [update_apply]
    split
    · exact length kind
    · exact conserved.length other kind
  · intro other
    dsimp only [State.change]
    rw [update_apply, update_apply]
    split
    · exact linked
    · exact conserved.linked other

theorem count_held_cons (reg : Nat) :
    (held config kind (entry :: history)).count reg =
      (held config kind [entry]).count reg + (held config kind history).count reg := by
  rw [← singleton_append, held_append, count_append]

/-! ### Renaming a destination -/

theorem renameDestReg_eq (taken : State.renameDestReg tid seqNum state dest = .ok next) :
    (∃ entry, entry.instSeqNum = seqNum ∧ entry.newPhysReg = entry.prevPhysReg ∧
      next = state.setHistory tid (entry :: state.historyBuffer tid)) ∨
    ∃ kind prev renamed free, dest.1 = .renamed kind ∧ config.zeroReg kind ≠ some dest.2 ∧
      (state.renameMap tid kind)[dest.2]? = some prev ∧
      state.freeList kind = renamed :: free ∧ config.IsPhysReg kind renamed ∧
      next = state.change tid (update state.freeList kind free)
        (update (state.renameMap tid) kind
          ((state.renameMap tid kind).set dest.2 renamed))
        (⟨seqNum, dest.2 + config.regBase dest.1, renamed, prev⟩ ::
          state.historyBuffer tid) := by
  rw [State.renameDestReg] at taken
  obtain ⟨_, done, rfl⟩ := map_eq_ok taken
  rw [State.renameByClass] at done
  split at done
  · rename_i kind isKind
    rw [State.rename] at done
    split at done
    · cases done
    · rename_i prev present
      split at done
      · rename_i notZero
        split at done
        · cases done
        · rename_i first free isFree
          obtain ⟨isPhysReg, done⟩ := then_eq_ok done
          cases done
          exact .inr ⟨kind, prev, first, free, isKind, notZero, present, isFree, isPhysReg, rfl⟩
      · obtain ⟨zero, done⟩ := then_eq_ok done
        cases done
        exact .inl ⟨_, rfl, zero.1.symm, rfl⟩
  · cases done
    exact .inl ⟨_, rfl, rfl, rfl⟩

section

variable (conserved : Conserved state)
include conserved

theorem Conserved.length_set
    (tid : Fin config.numThreads) (kind : RenamedClass) (rel reg : Nat) (other : RenamedClass) :
    (update (state.renameMap tid) kind ((state.renameMap tid kind).set rel reg) other).length =
      config.numRegs other := by
  rw [← conserved.length tid other, update_apply]
  split
  · rename_i same
    rw [List.length_set, same]
  · rfl

theorem Conserved.renameDestReg (taken : State.renameDestReg tid seqNum state dest = .ok next) :
    Conserved next ∧ Elsewhere tid state next ∧
      ∃ entry, entry.instSeqNum = seqNum ∧
        next.historyBuffer tid = entry :: state.historyBuffer tid ∧
        undo config entry (next.renameMap tid) = state.renameMap tid := by
  obtain ⟨entry, own, special, rfl⟩ | ⟨kind, prev, renamed, free, isKind, _, present, isFree,
    isPhysReg, rfl⟩ := renameDestReg_eq taken
  · rw [State.setHistory_eq_change]
    refine ⟨conserved.change (fun kind reg => ?_) (conserved.length tid) ?_,
      elsewhere_change _ _, entry, own, update_self _ _ _, ?_⟩
    · rw [count_held_cons, held_special special, count_nil, zero_add]
    · refine ⟨.inl special, ?_⟩
      rw [undo, if_neg (not_not.mpr special)]
      exact conserved.linked tid
    · rw [undo, if_neg (not_not.mpr special)]
      exact update_self _ _ _
  · obtain ⟨_, rel⟩ := dest
    dsimp only at isKind present
    subst isKind
    obtain ⟨short, value⟩ := List.getElem?_eq_some_iff.mp present
    have inside : rel < config.numRegs kind := by
      rw [← conserved.length tid kind]
      exact short
    have mapped : prev ∈ state.renameMap tid kind := mem_of_getElem? present
    have unused : renamed ∈ state.freeList kind := isFree ▸ mem_cons_self
    have changed : renamed ≠ prev := conserved.ne_of_mem unused mapped
    obtain ⟨place, unified⟩ := config.classOf_unified inside
    have undone : undo config ⟨seqNum, rel + config.regBase (.renamed kind), renamed, prev⟩
        (update (state.renameMap tid) kind
          ((state.renameMap tid kind).set rel renamed)) = state.renameMap tid := by
      rw [undo, if_pos changed, place]
      dsimp only
      rw [update_self, update_idem, set_set, ← value, set_getElem_self short, update_eq_self]
    refine ⟨conserved.change (fun other reg => ?_) (fun other => ?_) ⟨.inr ⟨changed, unified,
      kind, rel, place, ?_, conserved.isPhysReg_of_mem mapped, isPhysReg⟩, ?_⟩,
      elsewhere_change _ _, _, rfl, update_self _ _ _, ?_⟩
    · rw [count_held_cons]
      by_cases same : other = kind
      · subst same
        have set := count_set present renamed reg
        rw [update_self, update_self, isFree, count_cons,
          held_self changed (congrArg Prod.fst place), count_singleton]
        simp only [beq_iff_eq]
        omega
      · rw [update_of_ne same, update_of_ne same,
          held_other same (congrArg Prod.fst place), count_nil, zero_add]
    · exact conserved.length_set tid kind rel renamed other
    · rw [update_self, getElem?_set_self]
      rw [conserved.length]
      exact inside
    · rw [undone]
      exact conserved.linked tid
    · refine Eq.trans ?_ undone
      exact congrArg _ (update_self _ _ _)

theorem Conserved.renameDestRegs (taken : state.renameDestRegs tid seqNum dests = .ok next) :
    Conserved next ∧ Elsewhere tid state next ∧
      ∃ recent, (∀ entry ∈ recent, entry.instSeqNum = seqNum) ∧
        next.historyBuffer tid = recent ++ state.historyBuffer tid ∧
        recent.foldl (fun map entry => undo config entry map) (next.renameMap tid) =
          state.renameMap tid := by
  induction dests generalizing state with
  | nil =>
    cases taken
    exact ⟨conserved, .refl, [], fun _ member => (nomatch member), rfl, rfl⟩
  | cons _ _ hypothesis =>
    rw [State.renameDestRegs, foldlM_cons] at taken
    obtain ⟨_, first, continued⟩ := bind_eq_ok taken
    obtain ⟨kept, others, entry, own, pushed, undone⟩ := conserved.renameDestReg first
    obtain ⟨finally_, unchanged, recent, same, extended, restored⟩ :=
      hypothesis kept continued
    refine ⟨finally_, others.trans unchanged, recent ++ [entry], ?_, ?_, ?_⟩
    · intro other member
      obtain older | newest := mem_append.mp member
      · exact same other older
      · exact mem_singleton.mp newest ▸ own
    · rw [extended, pushed, append_assoc, singleton_append]
    · rw [foldl_append, restored]
      exact undone

end

/-- What the renames of some destinations of a thread need: free registers, indices inside
the maps, and zero registers that are mapped to the physical registers of the same index. -/
def State.CanRename (state : State config) (tid : Fin config.numThreads)
    (dests : List (RegClass × Nat)) : Prop :=
  ∀ kind, (dests.map Prod.fst).count (.renamed kind) ≤ (state.freeList kind).length ∧
    ∀ rel, (.renamed kind, rel) ∈ dests → rel < config.numRegs kind ∧
      (config.zeroReg kind = some rel → (state.renameMap tid kind)[rel]? = some rel)

section

variable (conserved : Conserved state)
include conserved

theorem Conserved.exists_rename {rel : Nat}
    (inside : rel < config.numRegs kind) (free : state.freeList kind ≠ [])
    (zero : config.zeroReg kind = some rel → (state.renameMap tid kind)[rel]? = some rel) :
    ∃ result, state.rename tid kind rel = .ok result := by
  have present := List.getElem?_eq_getElem ((conserved.length tid kind).symm ▸ inside)
  rw [State.rename, present]
  dsimp only
  by_cases isZero : config.zeroReg kind = some rel
  · have mapped := zero isZero
    have same := Option.some.inj (present.symm.trans mapped)
    have isPhysReg := conserved.isPhysReg_of_mem (mem_of_getElem? mapped)
    rw [if_neg (not_not.mpr isZero), if_pos ⟨same, isPhysReg⟩]
    exact ⟨_, rfl⟩
  · rw [if_pos isZero]
    obtain ⟨first, rest, isFree⟩ := exists_cons_of_ne_nil free
    have isPhysReg := conserved.isPhysReg_of_free (isFree ▸ mem_cons_self)
    simp only [isFree, if_pos isPhysReg]
    exact ⟨_, rfl⟩

theorem Conserved.exists_renameDestReg (seqNum : Nat) (can : state.CanRename tid (dest :: dests)) :
    ∃ next, State.renameDestReg tid seqNum state dest = .ok next ∧ next.CanRename tid dests := by
  obtain ⟨class_, rel⟩ := dest
  have renames : ∃ result, state.renameByClass tid (class_, rel) = .ok result := by
    cases class_ with
    | misc => exact ⟨_, rfl⟩
    | renamed kind =>
      obtain ⟨free, listed⟩ := can kind
      obtain ⟨inside, zero⟩ := listed rel mem_cons_self
      rw [map_cons, count_cons_self] at free
      exact conserved.exists_rename inside (ne_nil_of_length_pos (by omega)) zero
  obtain ⟨result, renamed⟩ := renames
  have taken : State.renameDestReg tid seqNum state (class_, rel) = .ok _ :=
    congrArg (· >>= _) renamed
  refine ⟨_, taken, fun other => ?_⟩
  obtain ⟨enough, listed⟩ := can other
  rw [map_cons] at enough
  obtain ⟨_, _, _, same⟩ | ⟨kind, _, _, _, isKind, notZero, _, isFree, _, changed⟩ :=
    renameDestReg_eq taken
  · rw [same]
    exact ⟨count_le_count_cons.trans enough,
      fun rel member => listed rel (mem_cons_of_mem _ member)⟩
  · subst isKind
    rw [changed]
    refine ⟨?_, fun place member => ?_⟩
    · show _ ≤ (update state.freeList kind _ other).length
      by_cases same : other = kind
      · subst same
        rw [update_self]
        rw [count_cons_self, isFree, length_cons] at enough
        exact Nat.le_of_succ_le_succ enough
      · rw [update_of_ne same]
        exact count_le_count_cons.trans enough
    · obtain ⟨inside, zero⟩ := listed place (mem_cons_of_mem _ member)
      refine ⟨inside, fun isZero => ?_⟩
      show (update state.renameMap tid _ tid other)[place]? = _
      rw [update_self, update_apply]
      split
      · rename_i same
        subst same
        have elsewhere : rel ≠ place := by
          rintro rfl
          exact notZero isZero
        rw [getElem?_set_ne elsewhere, zero isZero]
      · exact zero isZero

theorem Conserved.exists_renameDestRegs (seqNum : Nat)
    (can : state.CanRename tid dests) :
    ∃ next, state.renameDestRegs tid seqNum dests = .ok next := by
  induction dests generalizing state with
  | nil => exact ⟨state, rfl⟩
  | cons _ _ hypothesis =>
    obtain ⟨middle, taken, still⟩ := conserved.exists_renameDestReg seqNum can
    obtain ⟨next, continued⟩ := hypothesis (conserved.renameDestReg taken).1 still
    exact ⟨next, by rw [State.renameDestRegs, foldlM_cons, taken, ok_bind, ← continued]; rfl⟩

end

/-! ### Squashes and commits -/

theorem addReg_eq (state : State config) {reg : Nat} (isPhysReg : config.IsPhysReg kind reg) :
    state.addReg reg = .ok (state.setFreeList kind (state.freeList kind ++ [reg])) := by
  obtain ⟨low, high⟩ := isPhysReg
  rw [State.addReg]
  cases kind with
  | int => rw [if_pos ⟨low, high⟩]
  | float =>
    rw [if_neg, if_pos ⟨low, high⟩]
    rintro ⟨_, below⟩
    simp only [Config.physBase, Config.baseFloatRegIndex] at low below
    omega
  | cc =>
    rw [if_neg, if_neg, if_pos ⟨low, high⟩]
    · rintro ⟨_, below⟩
      simp only [Config.physBase, Config.baseFloatRegIndex, Config.baseCCRegIndex] at low below
      omega
    · rintro ⟨_, below⟩
      simp only [Config.physBase, Config.baseCCRegIndex] at low below
      omega

section

variable (conserved : Conserved state)
include conserved

theorem Conserved.undoEntry {older : List RenameHistory}
    (youngest : state.historyBuffer tid = entry :: older) :
    ∃ next, state.undoEntry tid entry = .ok next ∧ Conserved (next.setHistory tid older) ∧
      next.renameMap tid = undo config entry (state.renameMap tid) ∧
      Elsewhere tid state (next.setHistory tid older) := by
  have linked := conserved.linked tid
  rw [youngest] at linked
  obtain ⟨special | ⟨changed, unified, kind, rel, place, present, isPrev, isNew⟩, rest⟩ := linked
  · rw [undo, if_neg (not_not.mpr special)] at rest ⊢
    refine ⟨state, if_neg (not_not.mpr special), ?_, rfl, ?_⟩ <;>
      rw [State.setHistory_eq_change]
    swap
    · exact elsewhere_change _ _
    refine conserved.change (fun kind reg => ?_) (conserved.length tid) rest
    rw [youngest, count_held_cons, held_special special, count_nil, zero_add]
  · have inside := (List.getElem?_eq_some_iff.mp present).1
    have undone : undo config entry (state.renameMap tid) = update
        (state.renameMap tid) kind ((state.renameMap tid kind).set rel entry.prevPhysReg) := by
      rw [undo, if_pos changed, place]
    rw [undone] at rest ⊢
    refine ⟨(state.setMap tid (update (state.renameMap tid) kind
      ((state.renameMap tid kind).set rel entry.prevPhysReg))).setFreeList kind
        (state.freeList kind ++ [entry.newPhysReg]), ?_, ?_, update_self _ _ _,
      elsewhere_change (update state.freeList kind (state.freeList kind ++ [entry.newPhysReg])) _⟩
    · rw [State.undoEntry, if_pos changed, State.setEntry, Config.regIdxToClass,
        if_pos unified, ok_bind, place]
      dsimp only
      rw [if_pos isPrev, if_pos inside, ok_bind, addReg_eq _ isNew]
      rfl
    · show Conserved (state.change tid (update state.freeList kind
        (state.freeList kind ++ [entry.newPhysReg])) _ older)
      refine conserved.change (fun other reg => ?_) (fun other => ?_) rest
      · rw [youngest, count_held_cons]
        by_cases same : other = kind
        · subst same
          have set := count_set present entry.prevPhysReg reg
          rw [update_self, update_self, count_append, count_singleton,
            held_self changed (congrArg Prod.fst place), count_singleton]
          simp only [beq_iff_eq]
          omega
        · rw [update_of_ne same, update_of_ne same,
            held_other same (congrArg Prod.fst place), count_nil, zero_add]
      · exact conserved.length_set tid kind rel entry.prevPhysReg other

theorem Conserved.squashFrom (own : state.historyBuffer tid = history) (bound : Nat) :
    ∃ next, State.squashFrom tid bound history state = .ok next ∧ Conserved next ∧
      next.renameMap tid = rollback RenameHistory.instSeqNum (undo config) bound history
        (state.renameMap tid) ∧
      next.historyBuffer tid = remaining RenameHistory.instSeqNum bound history ∧
      Elsewhere tid state next := by
  induction history generalizing state with
  | nil => exact ⟨state, rfl, conserved, rfl, own, .refl⟩
  | cons _ _ hypothesis =>
    rw [State.squashFrom, rollback, remaining]
    split
    · obtain ⟨_, taken, kept, map, others⟩ := conserved.undoEntry own
      obtain ⟨next, continued, finally_, lastMap, lastHistory, unchanged⟩ :=
        hypothesis kept (update_self _ _ _)
      refine ⟨next, ?_, finally_, ?_, lastHistory, others.trans unchanged⟩
      · rw [taken, ok_bind, continued]
      · rw [lastMap, ← map]
        rfl
    · exact ⟨state, rfl, conserved, rfl, own, .refl⟩

theorem Conserved.commitEntry {younger : List RenameHistory}
    (oldest : state.historyBuffer tid = younger ++ [entry]) :
    ∃ next, state.commitEntry entry = .ok next ∧ Conserved (next.setHistory tid younger) ∧
    next.renameMap = state.renameMap ∧
      next.historyBuffer = state.historyBuffer := by
  have linked := conserved.linked tid
  rw [oldest] at linked
  obtain ⟨_, special | ⟨changed, _, kind, _, place, _, isPrev, _⟩⟩ :=
    Records.of_mem linked (mem_append_right _ mem_cons_self)
  · refine ⟨state, if_neg (not_not.mpr special), ?_, rfl, rfl⟩
    rw [State.setHistory_eq_change]
    refine conserved.change (fun kind reg => ?_) (conserved.length tid) linked.append
    rw [oldest, held_append, held_special special, append_nil]
  · refine ⟨_, (if_pos changed).trans (addReg_eq state isPrev), ?_, rfl, rfl⟩
    rw [State.setHistory_eq_change]
    refine conserved.change (fun other reg => ?_) (conserved.length tid) linked.append
    dsimp only [State.setFreeList]
    rw [oldest, held_append, count_append]
    by_cases same : other = kind
    · subst same
      rw [update_self, count_append, held_self changed (congrArg Prod.fst place)]
      omega
    · rw [update_of_ne same, held_other same (congrArg Prod.fst place), count_nil, add_zero]

theorem Conserved.commitFrom {oldestFirst : List RenameHistory}
    (own : state.historyBuffer tid = oldestFirst.reverse) (limit : Nat) :
    ∃ next, State.commitFrom tid limit oldestFirst state = .ok next ∧ Conserved next ∧
      next.renameMap = state.renameMap ∧
      (∃ truncated, state.historyBuffer tid = next.historyBuffer tid ++ truncated ∧
        ∀ entry ∈ truncated, entry.instSeqNum ≤ limit) ∧
      ∀ other, other ≠ tid → next.historyBuffer other = state.historyBuffer other := by
  induction oldestFirst generalizing state with
  | nil =>
    exact ⟨state, rfl, conserved, rfl, ⟨[], (append_nil _).symm,
      fun _ member => (nomatch member)⟩, fun _ _ => rfl⟩
  | cons entry younger hypothesis =>
    rw [State.commitFrom]
    by_cases reached : entry.instSeqNum ≤ limit
    · rw [reverse_cons] at own
      obtain ⟨middle, taken, kept, map, history⟩ := conserved.commitEntry own
      obtain ⟨next, continued, finally_, lastMap, ⟨truncated, split, below⟩, unchanged⟩ :=
        hypothesis kept (update_self _ _ _)
      have shortened : younger.reverse = next.historyBuffer tid ++ truncated :=
        (update_self tid _ middle.historyBuffer).symm.trans split
      refine ⟨next, ?_, finally_, lastMap.trans map, ⟨truncated ++ [entry], ?_, ?_⟩,
        fun other different => ?_⟩
      · rw [if_pos reached, taken, ok_bind, continued]
      · rw [own, shortened, append_assoc]
      · intro other member
        obtain earlier | last := mem_append.mp member
        · exact below other earlier
        · exact mem_singleton.mp last ▸ reached
      · exact (unchanged other different).trans
          ((update_of_ne different _ _).trans (congrFun history other))
    · rw [if_neg reached]
      exact ⟨state, rfl, conserved, rfl, ⟨[], (append_nil _).symm,
        fun _ member => (nomatch member)⟩, fun _ _ => rfl⟩

end

/-! ### The initial state -/

theorem takeRegs_eq {count : Nat} {free regs rest : List Nat}
    (taken : takeRegs count free = .ok (regs, rest)) :
    free = regs ++ rest ∧ regs.length = count := by
  induction count generalizing free regs rest with
  | zero =>
    cases taken
    exact ⟨rfl, rfl⟩
  | succ _ hypothesis =>
    cases free with
    | nil => cases taken
    | cons reg =>
      rw [takeRegs] at taken
      obtain ⟨_, continued, taken⟩ := bind_eq_ok taken
      cases taken
      obtain ⟨split, length⟩ := hypothesis continued
      exact ⟨congrArg (reg :: ·) split, congrArg (· + 1) length⟩

theorem takeMaps_eq {size threads : Nat} {free rest : List Nat} {maps : List (List Nat)}
    (taken : takeMaps size threads free = .ok (maps, rest)) :
    (∀ tid : Fin threads, (maps.getD tid []).length = size) ∧
      ∀ reg, rest.count reg + ∑ tid : Fin threads, (maps.getD tid []).count reg =
        free.count reg := by
  induction threads generalizing free maps rest with
  | zero =>
    cases taken
    exact ⟨fun tid => tid.elim0, fun reg => by rw [Fin.sum_univ_zero, add_zero]⟩
  | succ _ hypothesis =>
    rw [takeMaps] at taken
    obtain ⟨_, firstTaken, taken⟩ := bind_eq_ok taken
    obtain ⟨_, othersTaken, taken⟩ := bind_eq_ok taken
    cases taken
    obtain ⟨split, length⟩ := takeRegs_eq firstTaken
    obtain ⟨lengths, counts⟩ := hypothesis othersTaken
    constructor
    · intro tid
      cases tid using Fin.cases with
      | zero => exact length
      | succ tid => exact lengths tid
    · intro reg
      rw [Fin.sum_univ_succ, split, count_append, ← counts reg, add_left_comm]
      rfl

theorem initClass_eq {taken : List (List Nat) × List Nat}
    (created : initClass config kind = .ok taken) :
    (∀ tid : Fin config.numThreads, (taken.1.getD tid []).length = config.numRegs kind) ∧
      ∀ reg, taken.2.count reg +
          ∑ tid : Fin config.numThreads, (taken.1.getD tid []).count reg =
        if config.IsPhysReg kind reg then 1 else 0 := by
  obtain ⟨lengths, counts⟩ := takeMaps_eq created
  refine ⟨lengths, fun reg => ?_⟩
  rw [counts, initFreeList]
  split
  · rename_i inside
    exact count_eq_one_of_mem nodup_range' (mem_range'_1.mpr inside)
  · rename_i outside
    exact count_eq_zero.mpr fun member => outside (mem_range'_1.mp member)

theorem Conserved.init {state : State config} (created : State.init config = .ok state) :
    Conserved state ∧ ∀ tid, state.historyBuffer tid = [] := by
  rw [State.init] at created
  obtain ⟨int, intTaken, created⟩ := bind_eq_ok created
  obtain ⟨float, floatTaken, created⟩ := bind_eq_ok created
  obtain ⟨cc, ccTaken, rfl⟩ := map_eq_ok created
  refine ⟨⟨fun kind reg => ?_, fun tid kind => ?_, fun _ => trivial⟩, fun _ => rfl⟩
  · rw [State.occurrences]
    simp only [State.owned, held, filter_nil, map_nil, append_nil]
    cases kind with
    | int => exact (initClass_eq intTaken).2 reg
    | float => exact (initClass_eq floatTaken).2 reg
    | cc => exact (initClass_eq ccTaken).2 reg
  · cases kind with
    | int => exact (initClass_eq intTaken).1 tid
    | float => exact (initClass_eq floatTaken).1 tid
    | cc => exact (initClass_eq ccTaken).1 tid

/-! ### Runs -/

/-- A state together with what the threads have done: the maps just after the instructions
that have not been squashed, and the numbers of the latest instruction that was renamed
and of the latest one that was committed. -/
structure Trace (config : Config) where
  state : State config
  log : Fin config.numThreads → List (Nat × RenameMap)
  latest : Fin config.numThreads → Nat
  committed : Fin config.numThreads → Nat

inductive Call (config : Config) where
  | renameDestRegs (tid : Fin config.numThreads) (seqNum : Nat) (dests : List (RegClass × Nat))
  | removeFromHistory (tid : Fin config.numThreads) (instSeqNum : Nat)
  | doSquash (tid : Fin config.numThreads) (squashedSeqNum : Nat)
deriving Repr

namespace Trace

def start (state : State config) : Trace config := ⟨state, fun _ => [], fun _ => 0, fun _ => 0⟩

variable (trace : Trace config)

def step : Call config → Except Fault (Trace config)
  | .renameDestRegs tid seqNum dests => do
    let state ← trace.state.renameDestRegs tid seqNum dests
    .ok { trace with
      state
      log := update trace.log tid ((seqNum, state.renameMap tid) :: trace.log tid)
      latest := update trace.latest tid seqNum }
  | .removeFromHistory tid instSeqNum => do
    let state ← trace.state.removeFromHistory tid instSeqNum
    .ok { trace with
      state
      committed := update trace.committed tid (max (trace.committed tid) instSeqNum) }
  | .doSquash tid squashedSeqNum => do
    let state ← trace.state.doSquash tid squashedSeqNum
    .ok { trace with
      state
      log := update trace.log tid
        (remaining Prod.fst squashedSeqNum (trace.log tid)) }

/-- The threads rename in program order, and what is committed is not squashed. -/
def InOrder : Call config → Prop
  | .renameDestRegs tid seqNum _ => trace.latest tid < seqNum
  | .removeFromHistory _ _ => True
  | .doSquash tid squashedSeqNum => trace.committed tid ≤ squashedSeqNum

instance : (call : Call config) → Decidable (trace.InOrder call)
  | .renameDestRegs .. => inferInstanceAs (Decidable (_ < _))
  | .removeFromHistory .. => .isTrue trivial
  | .doSquash .. => inferInstanceAs (Decidable (_ ≤ _))

/-- A rename does not fail an assertion. -/
def Ready : Call config → Prop
  | .renameDestRegs tid _ dests => trace.state.CanRename tid dests
  | _ => True

/-- What the history of a thread says about its map. -/
structure Logged (config : Config) (initial : RenameMap) (committed latest : Nat)
    (log : List (Nat × RenameMap)) (history : List RenameHistory) (map : RenameMap) : Prop where
  tracks : Tracks RenameHistory.instSeqNum (undo config) initial committed log history map
  descending : history.Pairwise fun younger older => older.instSeqNum ≤ younger.instSeqNum
  recent : ∀ entry ∈ history, entry.instSeqNum ≤ latest

structure Sound (initial : Fin config.numThreads → RenameMap) (trace : Trace config) :
    Prop where
  conserved : Conserved trace.state
  logged : ∀ tid, Logged config (initial tid) (trace.committed tid) (trace.latest tid)
    (trace.log tid) (trace.state.historyBuffer tid) (trace.state.renameMap tid)

theorem Sound.of_thread {initial : Fin config.numThreads → RenameMap} {before after : Trace config}
    (sound : Sound initial before) (tid : Fin config.numThreads)
    (conserved : Conserved after.state) (others : Elsewhere tid before.state after.state)
    (kept : ∀ other, other ≠ tid → after.log other = before.log other ∧
      after.latest other = before.latest other ∧ after.committed other = before.committed other)
    (own : Logged config (initial tid) (after.committed tid) (after.latest tid) (after.log tid)
      (after.state.historyBuffer tid) (after.state.renameMap tid)) : Sound initial after := by
  refine ⟨conserved, fun other => ?_⟩
  by_cases here : other = tid
  · exact here ▸ own
  · obtain ⟨map, history⟩ := others other here
    obtain ⟨log, latest, committed⟩ := kept other here
    rw [map, history, log, latest, committed]
    exact sound.logged other

theorem Sound.step {initial : Fin config.numThreads → RenameMap} {before after : Trace config}
    (sound : Sound initial before) {call : Call config} (inOrder : before.InOrder call)
    (taken : before.step call = .ok after) : Sound initial after := by
  cases call with
  | renameDestRegs tid seqNum =>
    rw [Trace.step] at taken
    obtain ⟨_, renamed, rfl⟩ := map_eq_ok taken
    obtain ⟨conserved, others, _, own, history, undone⟩ :=
      sound.conserved.renameDestRegs renamed
    obtain ⟨tracks, descending, recent⟩ := sound.logged tid
    have older : ∀ entry ∈ before.state.historyBuffer tid, entry.instSeqNum ≤ seqNum :=
      fun entry member => le_of_lt (lt_of_le_of_lt (recent entry member) inOrder)
    refine sound.of_thread tid conserved others (fun other different =>
      ⟨update_of_ne different _ _, update_of_ne different _ _, rfl⟩) ?_
    dsimp only
    rw [update_self, update_self, history]
    refine ⟨tracks.push own older undone, ?_, fun entry member => ?_⟩
    · refine pairwise_append.mpr
        ⟨pairwise_of_forall_mem_list fun first isFirst second isSecond => ?_, descending,
          fun younger isYounger entry isOlder => ?_⟩
      · rw [own first isFirst, own second isSecond]
      · rw [own younger isYounger]
        exact older entry isOlder
    · obtain mine | before := mem_append.mp member
      · exact le_of_eq (own entry mine)
      · exact older entry before
  | removeFromHistory tid instSeqNum =>
    rw [Trace.step] at taken
    obtain ⟨state, removed, rfl⟩ := map_eq_ok taken
    obtain ⟨_, again, conserved, map, ⟨_, split, below⟩, others⟩ :=
      sound.conserved.commitFrom (reverse_reverse _).symm instSeqNum
    cases removed.symm.trans again
    obtain ⟨tracks, descending, recent⟩ := sound.logged tid
    rw [split] at tracks descending recent
    refine sound.of_thread tid conserved
      (fun other different => ⟨congrFun map other, others other different⟩)
      (fun other different => ⟨rfl, rfl, update_of_ne different _ _⟩) ?_
    dsimp only
    rw [update_self, map]
    exact ⟨tracks.truncate below, (pairwise_append.mp descending).1,
      fun entry member => recent entry (mem_append_left _ member)⟩
  | doSquash tid squashedSeqNum =>
    rw [Trace.step] at taken
    obtain ⟨state, squashed, rfl⟩ := map_eq_ok taken
    obtain ⟨_, again, conserved, map, history, others⟩ :=
      sound.conserved.squashFrom rfl squashedSeqNum
    cases squashed.symm.trans again
    obtain ⟨tracks, descending, recent⟩ := sound.logged tid
    refine sound.of_thread tid conserved others
      (fun other different => ⟨update_of_ne different _ _, rfl, rfl⟩) ?_
    dsimp only
    rw [update_self, map, history]
    exact ⟨tracks.rolledBack descending inOrder, descending.sublist (remaining_sublist _ _),
      fun entry member => recent entry ((remaining_sublist _ _).subset member)⟩

theorem Sound.start {state : State config} (created : State.init config = .ok state) :
    Sound state.renameMap (start state) := by
  obtain ⟨conserved, empty⟩ := Conserved.init created
  refine ⟨conserved, fun tid => ?_⟩
  show Logged _ _ 0 0 [] (state.historyBuffer tid) _
  rw [empty tid]
  exact ⟨Tracks.start _, List.Pairwise.nil, fun _ member => (nomatch member)⟩

theorem exists_step {trace : Trace config} (conserved : Conserved trace.state)
    {call : Call config} (ready : trace.Ready call) : ∃ next, trace.step call = .ok next := by
  cases call with
  | renameDestRegs tid seqNum dests =>
    obtain ⟨_, renamed⟩ := conserved.exists_renameDestRegs seqNum ready
    exact ⟨_, congrArg (· >>= _) renamed⟩
  | removeFromHistory tid instSeqNum =>
    obtain ⟨_, removed, _⟩ := conserved.commitFrom (reverse_reverse _).symm instSeqNum
    exact ⟨_, congrArg (· >>= _) removed⟩
  | doSquash tid squashedSeqNum =>
    obtain ⟨_, squashed, _⟩ := conserved.squashFrom rfl squashedSeqNum
    exact ⟨_, congrArg (· >>= _) squashed⟩

/-- After every interleaving of renames, commits and squashes the free lists have no
duplicates, every register of a class occurs exactly once on its free list, in the maps of
the threads, or among the previous mappings of their histories, and no other register
occurs there. A squash of a thread gives back the map just after its youngest instruction
that is kept, and leaves the maps of the other threads. Every call returns, except a rename
without free registers, outside the maps, or of a zero register mapped to another index. -/
theorem registers_conserved {state : State config} {calls : List (Call config)}
    {trace : Trace config} (created : State.init config = .ok state)
    (run : Run step InOrder (start state) calls trace) :
    (∀ kind, (trace.state.freeList kind).Nodup ∧ ∀ reg, trace.state.occurrences kind reg =
      if config.IsPhysReg kind reg then 1 else 0) ∧
    (∀ tid squashedSeqNum, trace.committed tid ≤ squashedSeqNum →
      ∃ next, trace.state.doSquash tid squashedSeqNum = .ok next ∧
        next.renameMap tid =
          snapshotAt (state.renameMap tid) squashedSeqNum (trace.log tid) ∧
        ∀ other, other ≠ tid → next.renameMap other = trace.state.renameMap other) ∧
    ∀ call, trace.Ready call → ∃ next, trace.step call = .ok next := by
  have sound : Sound state.renameMap trace := run.invariant (Sound state.renameMap)
    (fun sound => sound.step) (.start created)
  refine ⟨fun kind => ⟨sound.conserved.freeList_nodup kind, sound.conserved.occurrences kind⟩,
    fun tid squashedSeqNum order => ?_, fun _ => exists_step sound.conserved⟩
  obtain ⟨next, squashed, _, map, _, others⟩ :=
    sound.conserved.squashFrom rfl squashedSeqNum
  refine ⟨next, squashed, ?_, fun other different => (others other different).1⟩
  rw [map, (sound.logged tid).tracks squashedSeqNum order]

/-- Two threads with two integer registers, one of them the zero register, and a float. -/
def twoThreads : Config where
  numThreads := 2
  numRegs
    | .int => 2
    | .float => 1
    | .cc => 0
  numMiscRegs := 1
  fpRegBase := 2
  zeroReg
    | .int => some 0
    | .float => none
    | .cc => none
  numPhysRegs
    | .int => 7
    | .float => 4
    | .cc => 0
  intFits := by decide
  ccFits := by decide

def first : Fin twoThreads.numThreads := ⟨0, by decide⟩

def second : Fin twoThreads.numThreads := ⟨1, by decide⟩

def twoThreadsStart : State twoThreads :=
  (State.init twoThreads).toOption.getD ⟨fun _ => [], fun _ _ => [], fun _ => []⟩

def twoThreadsCalls : List (Call twoThreads) :=
  [.renameDestRegs first 1 [(.renamed .int, 1), (.renamed .int, 0), (.misc, 0)],
    .renameDestRegs second 2 [(.renamed .float, 0), (.renamed .int, 1)],
    .renameDestRegs first 3 [(.renamed .int, 1), (.renamed .float, 0)],
    .removeFromHistory first 1, .doSquash first 1, .renameDestRegs first 4 [(.renamed .int, 1)],
    .removeFromHistory second 2]

theorem registers_conserved_two_threads :
    ∃ trace, Run step InOrder (start twoThreadsStart) twoThreadsCalls trace ∧
      (∀ kind, (trace.state.freeList kind).Nodup) ∧
      ∃ next, trace.state.doSquash first 3 = .ok next ∧
        next.renameMap first =
          snapshotAt (twoThreadsStart.renameMap first) 3 (trace.log first) := by
  refine Run.exists_checked (fun trace => trace.committed first ≤ 3)
    (by decide +kernel) fun _ run committed => ?_
  obtain ⟨lists, squashes, _⟩ := registers_conserved rfl run
  obtain ⟨next, squashed, map, _⟩ := squashes first 3 committed
  exact ⟨fun kind => (lists kind).1, next, squashed, map⟩

/-- The first rename of the second thread is in order and there are free registers, but its
zero register is mapped to register 2. -/
theorem zero_register_not_renamed :
    let call : Call twoThreads := .renameDestRegs second 1 [(.renamed .int, 0)]
    State.init twoThreads = .ok twoThreadsStart ∧ (start twoThreadsStart).InOrder call ∧
      twoThreadsStart.freeList .int = [4, 5, 6] ∧
      twoThreadsStart.renameMap second .int = [2, 3] ∧
      (start twoThreadsStart).step call = .error .assertion :=
  ⟨rfl, by decide, rfl, rfl, rfl⟩

end Trace

end Gem5.Cpu.Rename
