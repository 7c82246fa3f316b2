/-
This file treats the table from addresses to blocks of the fully associative tag
store in a cache that uses it: accesses, fills as `handleFill` does them, fills
that are refused because the victim has a request pending, and invalidations. The
store never writes the tag of a block, so the table is exact only as long as
address zero alone is filled and nothing is invalidated.
-/

import Gem5.Mem.FalruSizes

namespace Gem5.Mem

open Base Library List Function

/-! ### A cache with fully associative tags -/

/-- The tag store, with the address for which every block was filled. -/
structure FalruCache where
  falru : Falru
  filled : Nat → Option Addr

/-- A fill comes with the answer whether the block it would replace has a request pending. -/
inductive FalruCacheCall where
  | access (addr : Addr)
  | handleFill (addr : Addr) (pending : Bool)
  | invalidate (blk : Nat)
deriving DecidableEq, Repr

namespace FalruCache

/-- The block for a fill. A valid victim with a request pending is not replaced, although the tag
store has changed by then. -/
def allocateBlock (falru : Falru) (addr : Addr) (pending : Bool) :
    Except FalruFault (Falru × Option Nat) := do
  let (moved, blk) ← falru.findVictim addr
  if moved.isValid blk && pending then return (moved, none) else return (moved, some blk)

def step (cache : FalruCache) : FalruCacheCall → Except FalruFault FalruCache
  | .access addr => do
    let (moved, _) ← cache.falru.accessBlock addr
    return { cache with falru := moved }
  | .handleFill addr pending => do
    let (moved, victim) ← allocateBlock cache.falru addr pending
    match victim with
    | none => return { cache with falru := moved }
    | some blk =>
      let inserted := moved.insertBlock blk
      if inserted.isValid blk then throw .overwritesValid
      else return {
        falru := { inserted with isValid := update inserted.isValid blk true }
        filled := update cache.filled blk (some (cache.falru.blkAlign addr)) }
  | .invalidate blk =>
    return {
      falru := { cache.falru with isValid := update cache.falru.isValid blk false }
      filled := update cache.filled blk none }

/-- A fill follows a lookup that found nothing, and a block that is invalidated is valid. -/
def Called (cache : FalruCache) : FalruCacheCall → Prop
  | .access _ => True
  | .handleFill addr _ => cache.falru.findBlock addr = .ok none
  | .invalidate blk => cache.falru.isValid blk = true

instance (cache : FalruCache) : (call : FalruCacheCall) → Decidable (cache.Called call)
  | .access _ => isTrue trivial
  | .handleFill addr _ => inferInstanceAs (Decidable (cache.falru.findBlock addr = .ok none))
  | .invalidate blk => inferInstanceAs (Decidable (cache.falru.isValid blk = true))

def start (falru : Falru) : FalruCache := ⟨falru, fun _ => none⟩

/-- The table has exactly the addresses of the valid blocks, a lookup finds the block that was
filled, and the assertion about the tag holds whatever is looked up. -/
structure Conforms (cache : FalruCache) : Prop where
  exact : ∀ addr blk, cache.falru.tagHash addr = some blk ↔
    cache.falru.isValid blk = true ∧ cache.filled blk = some addr
  found : ∀ addr blk, cache.falru.isValid blk = true →
    cache.filled blk = some (cache.falru.blkAlign addr) →
    cache.falru.findBlock addr = .ok (some blk)
  asserted : ∀ addr blk, cache.falru.hashLookup (cache.falru.blkAlign addr) = some blk →
    cache.falru.isValid blk = true → cache.falru.tag blk = cache.falru.blkAlign addr

/-- The calls that keep the table exact. -/
def Harmless (falru : Falru) : FalruCacheCall → Prop
  | .access _ => True
  | .handleFill addr _ => falru.blkAlign addr = 0
  | .invalidate _ => False

/-! ### What holds in every run -/

/-- No tag is ever written. -/
structure Kept (start : Falru) (cache : FalruCache) : Prop where
  tag : ∀ blk, cache.falru.tag blk = 0
  blkSize : cache.falru.blkSize = start.blkSize
  filled : ∀ blk, cache.falru.isValid blk = true ↔ ∃ addr, cache.filled blk = some addr
  aligned : ∀ blk addr, cache.filled blk = some addr → start.blkAlign addr = addr

variable {start falru next : Falru} {cache later : FalruCache} {blk : Nat}

theorem Kept.blkAlign_eq (kept : cache.Kept start) (addr : Addr) :
    cache.falru.blkAlign addr = start.blkAlign addr := by
  rw [Falru.blkAlign, Falru.blkAlign, kept.blkSize]

theorem findVictim_eq {addr : Addr} (found : falru.findVictim addr = .ok (next, blk)) :
    next.tag = falru.tag ∧ next.blkSize = falru.blkSize ∧ next.isValid = falru.isValid ∧
      next.tagHash = update (update falru.tagHash (falru.tag blk) none)
        (falru.blkAlign addr) (some blk) := by
  rw [Falru.findVictim] at found
  obtain ⟨-, found⟩ := then_eq_ok found
  obtain ⟨moved, computed, returned⟩ := bind_eq_ok found
  have frame := Falru.moveToHead_moved computed
  cases returned
  have hash : moved.tagHash = falru.tagHash := by rw [frame]
  have tags : moved.tag = falru.tag := by rw [frame]
  have sizes : moved.blkSize = falru.blkSize := by rw [frame]
  have valid : moved.isValid = falru.isValid := by rw [frame]
  refine ⟨tags, sizes, valid, ?_⟩
  rw [hash, tags]

theorem accessBlock_eq {addr : Addr} {found : Option Nat}
    (accessed : falru.accessBlock addr = .ok (next, found)) :
    next.tag = falru.tag ∧ next.blkSize = falru.blkSize ∧ next.isValid = falru.isValid ∧
      next.tagHash = falru.tagHash := by
  rw [Falru.accessBlock] at accessed
  split at accessed
  · cases accessed
    exact ⟨rfl, rfl, rfl, rfl⟩
  · split at accessed
    · obtain ⟨-, accessed⟩ := then_eq_ok accessed
      obtain ⟨_, computed, returned⟩ := bind_eq_ok accessed
      cases returned
      rename_i blk _ _ _
      have frame : (falru.recordHit blk).Moved next := by
        rw [Falru.hit] at computed
        split at computed
        · cases computed
          rfl
        · exact Falru.moveToHead_moved computed
      rw [frame]
      exact ⟨rfl, rfl, rfl, rfl⟩
    · cases accessed
      exact ⟨rfl, rfl, rfl, rfl⟩

/-- A fill changes the table for its victim, whether or not the victim is replaced. -/
inductive Filled (cache : FalruCache) (addr : Addr) (blk : Nat) (later : FalruCache) : Prop where
  | refused (valid : cache.falru.isValid blk = true)
      (kept : later.falru.isValid = cache.falru.isValid) (same : later.filled = cache.filled)
  | replaced (free : cache.falru.isValid blk = false)
      (valid : later.falru.isValid = update cache.falru.isValid blk true)
      (holds : later.filled =
        update cache.filled blk (some (cache.falru.blkAlign addr)))

theorem handleFill_cases {addr : Addr} {pending : Bool}
    (taken : cache.step (.handleFill addr pending) = .ok later) :
    ∃ blk, later.falru.tag = cache.falru.tag ∧ later.falru.blkSize = cache.falru.blkSize ∧
      later.falru.tagHash = update
        (update cache.falru.tagHash (cache.falru.tag blk) none)
        (cache.falru.blkAlign addr) (some blk) ∧ cache.Filled addr blk later := by
  obtain ⟨_, allocated, continued⟩ := bind_eq_ok taken
  obtain ⟨⟨_, blk⟩, searched, returned⟩ := bind_eq_ok allocated
  obtain ⟨tags, sizes, valid, hash⟩ := findVictim_eq searched
  refine ⟨blk, ?_⟩
  dsimp only at returned
  split at returned
  · rename_i refused
    rw [Bool.and_eq_true] at refused
    cases returned
    cases continued
    exact ⟨tags, sizes, hash, .refused (valid ▸ refused.1) valid rfl⟩
  · cases returned
    dsimp only [Falru.insertBlock] at continued
    obtain ⟨free, continued⟩ := else_eq_ok continued
    cases continued
    rw [Bool.not_eq_true] at free
    refine ⟨tags, sizes, hash, .replaced (valid ▸ free) ?_ rfl⟩
    exact congrArg (update · blk true) valid

theorem invalidate_eq (taken : cache.step (.invalidate blk) = .ok later) :
    later.falru.tag = cache.falru.tag ∧ later.falru.blkSize = cache.falru.blkSize ∧
      later.falru.tagHash = cache.falru.tagHash ∧
      later.falru.isValid = update cache.falru.isValid blk false ∧
      later.filled = update cache.filled blk none := by
  cases taken
  exact ⟨rfl, rfl, rfl, rfl, rfl⟩

theorem Kept.step (kept : cache.Kept start) {call : FalruCacheCall}
    (taken : cache.step call = .ok later) : later.Kept start := by
  cases call with
  | access =>
    obtain ⟨⟨moved, _⟩, accessed, returned⟩ := bind_eq_ok taken
    obtain ⟨tags, sizes, valid, _⟩ := accessBlock_eq accessed
    cases returned
    refine ⟨fun blk => ?_, sizes.trans kept.blkSize, fun blk => ?_, kept.aligned⟩
    · show moved.tag blk = 0
      rw [tags, kept.tag]
    · show moved.isValid blk = true ↔ _
      rw [valid]
      exact kept.filled blk
  | handleFill =>
    obtain ⟨blk, tags, sizes, _, filled⟩ := handleFill_cases taken
    have cleared : ∀ blk, later.falru.tag blk = 0 := by
      intro blk
      rw [tags, kept.tag]
    cases filled with
    | refused _ valid same =>
      refine ⟨cleared, sizes.trans kept.blkSize, fun other => ?_, fun other line holds => ?_⟩
      · rw [valid, same]
        exact kept.filled other
      · rw [same] at holds
        exact kept.aligned other line holds
    | replaced _ valid holds =>
      refine ⟨cleared, sizes.trans kept.blkSize, fun other => ?_, fun other line here => ?_⟩
      · rw [valid, holds]
        rw [update_apply, update_apply]
        split
        · exact iff_of_true rfl ⟨_, rfl⟩
        · exact kept.filled other
      · rw [holds] at here
        rw [update_apply] at here
        split at here
        · cases here
          rw [← kept.blkAlign_eq, Falru.blkAlign, Falru.blkAlign, BitVec.and_assoc, BitVec.and_self]
        · exact kept.aligned other line here
  | invalidate =>
    obtain ⟨tags, sizes, _, valid, gone⟩ := invalidate_eq taken
    refine ⟨fun other => by rw [tags, kept.tag], sizes.trans kept.blkSize, fun other => ?_,
      fun other line here => ?_⟩
    · rw [valid, gone]
      rw [update_apply, update_apply]
      split
      · exact iff_of_false Bool.false_ne_true (fun ⟨_, here⟩ => by cases here)
      · exact kept.filled other
    · rw [gone] at here
      rw [update_apply] at here
      split at here
      · cases here
      · exact kept.aligned other line here

/-! ### When the table is exact -/

theorem Conforms.filled_zero (conforms : cache.Conforms) (kept : cache.Kept start)
    (valid : cache.falru.isValid blk = true) : cache.filled blk = some 0 := by
  obtain ⟨addr, here⟩ := (kept.filled blk).mp valid
  have whole : cache.falru.blkAlign addr = addr := by
    rw [kept.blkAlign_eq, kept.aligned blk addr here]
  have looked : cache.falru.hashLookup (cache.falru.blkAlign addr) = some blk := by
    rw [whole]
    exact (conforms.exact addr blk).mpr ⟨valid, here⟩
  have tagged := conforms.asserted addr blk looked valid
  rw [kept.tag, whole] at tagged
  rw [here, tagged]

theorem Conforms.harmless (conforms : cache.Conforms) (kept : cache.Kept start)
    {call : FalruCacheCall} (called : cache.Called call) (taken : cache.step call = .ok later)
    (after : later.Conforms) : Harmless start call := by
  cases call with
  | access => trivial
  | handleFill addr =>
    obtain ⟨blk, _, _, hash, _⟩ := handleFill_cases taken
    have mapped : later.falru.tagHash (cache.falru.blkAlign addr) = some blk := by
      rw [hash, update_self]
    obtain ⟨valid, holds⟩ := (after.exact _ blk).mp mapped
    have zero := after.filled_zero (kept.step taken) valid
    show start.blkAlign addr = 0
    rw [← kept.blkAlign_eq]
    exact Option.some.inj (holds.symm.trans zero)
  | invalidate blk =>
    obtain ⟨addr, here⟩ := (kept.filled blk).mp called
    have mapped := (conforms.exact addr blk).mpr ⟨called, here⟩
    obtain ⟨_, _, hash, gone, _⟩ := invalidate_eq taken
    rw [← hash] at mapped
    obtain ⟨valid, _⟩ := (after.exact addr blk).mp mapped
    rw [gone, update_self] at valid
    cases valid

theorem conforms_of_zero (kept : cache.Kept start)
    (exact : ∀ addr blk, cache.falru.tagHash addr = some blk ↔
      cache.falru.isValid blk = true ∧ cache.filled blk = some addr)
    (zero : ∀ blk, cache.falru.isValid blk = true → cache.filled blk = some 0) :
    cache.Conforms where
  exact := exact
  asserted addr blk looked valid := by
    obtain ⟨_, here⟩ := (exact _ blk).mp looked
    rw [zero blk valid] at here
    rw [kept.tag]
    exact Option.some.inj here
  found addr blk valid here := by
    have looked : cache.falru.hashLookup (cache.falru.blkAlign addr) = some blk :=
      (exact _ blk).mpr ⟨valid, here⟩
    rw [zero blk valid] at here
    have tagged : cache.falru.tag blk = cache.falru.blkAlign addr := by
      rw [kept.tag]
      exact Option.some.inj here
    rw [Falru.findBlock, looked]
    dsimp only
    rw [if_pos valid, if_pos tagged]

theorem Conforms.step (conforms : cache.Conforms) (kept : cache.Kept start)
    {call : FalruCacheCall} (called : cache.Called call) (harmless : Harmless start call)
    (taken : cache.step call = .ok later) : later.Conforms := by
  have after := kept.step taken
  cases call with
  | access addr =>
    obtain ⟨⟨moved, _⟩, accessed, returned⟩ := bind_eq_ok taken
    obtain ⟨_, _, valid, hash⟩ := accessBlock_eq accessed
    cases returned
    refine conforms_of_zero after (fun addr blk => ?_) (fun blk here => ?_)
    · show moved.tagHash addr = some blk ↔ moved.isValid blk = true ∧ _
      rw [hash, valid]
      exact conforms.exact addr blk
    · replace here : moved.isValid blk = true := here
      rw [valid] at here
      exact conforms.filled_zero kept here
  | invalidate => exact harmless.elim
  | handleFill addr =>
    have zero : cache.falru.blkAlign addr = 0 := by
      rw [kept.blkAlign_eq]
      exact harmless
    have empty : ∀ blk, cache.falru.isValid blk = false := by
      intro blk
      by_contra valid
      rw [Bool.not_eq_false] at valid
      have here := conforms.filled_zero kept valid
      have found := conforms.found addr blk valid (zero ▸ here)
      rw [show cache.falru.findBlock addr = .ok none from called] at found
      cases found
    have unmapped : ∀ addr, cache.falru.tagHash addr = none := by
      intro addr
      cases mapped : cache.falru.tagHash addr with
      | none => rfl
      | some blk =>
        obtain ⟨valid, _⟩ := (conforms.exact addr blk).mp mapped
        rw [empty blk] at valid
        cases valid
    obtain ⟨blk, _, _, hash, filled⟩ := handleFill_cases taken
    cases filled with
    | refused valid =>
      rw [empty blk] at valid
      cases valid
    | replaced _ valid holds =>
      rw [zero] at hash holds
      have only : ∀ other, later.falru.isValid other = true ↔ other = blk := by
        intro other
        rw [valid]
        by_cases same : other = blk
        · rw [same, update_self]
          exact iff_of_true rfl rfl
        · rw [update_of_ne same, empty other]
          exact iff_of_false Bool.false_ne_true same
      have here : later.filled blk = some 0 := by
        rw [holds, update_self]
      refine conforms_of_zero after (fun other block => ?_) (fun block present => ?_)
      · rw [only, hash]
        by_cases same : other = 0
        · rw [same, update_self]
          constructor
          · intro equal
            cases equal
            exact ⟨rfl, here⟩
          · rintro ⟨rfl, _⟩
            rfl
        · have nothing :
              update cache.falru.tagHash (cache.falru.tag blk) none other = none := by
            rw [update_apply, unmapped, ite_self]
          rw [update_of_ne same, nothing]
          refine iff_of_false (fun equal => by cases equal) ?_
          rintro ⟨rfl, elsewhere⟩
          exact same (Option.some.inj (elsewhere.symm.trans here))
      · rw [(only block).mp present]
        exact here

theorem start_kept (blank : falru.Blank) : (FalruCache.start falru).Kept falru where
  tag := blank.tag
  blkSize := rfl
  filled blk := iff_of_false
    (by rw [show (FalruCache.start falru).falru.isValid blk = false from blank.isValid blk]; decide)
    (fun ⟨_, here⟩ => by cases here)
  aligned _ _ here := by cases here

theorem start_conforms (blank : falru.Blank) : (FalruCache.start falru).Conforms := by
  refine conforms_of_zero (start_kept blank) (fun addr blk => iff_of_false ?_ ?_) ?_
  · rw [show (FalruCache.start falru).falru.tagHash addr = none from blank.tagHash addr]
    exact fun equal => by cases equal
  · rintro ⟨_, here⟩
    cases here
  · intro blk valid
    rw [show (FalruCache.start falru).falru.isValid blk = false from blank.isValid blk] at valid
    cases valid

theorem conforms_iff_harmless {calls : List FalruCacheCall} {final : FalruCache}
    (run : Run FalruCache.step Called cache calls final) (kept : cache.Kept start)
    (conforms : cache.Conforms) :
    (∀ front state, front <+: calls → Run FalruCache.step Called cache front state →
        state.Conforms) ↔
      ∀ call ∈ calls, Harmless start call := by
  induction run with
  | nil =>
    refine iff_of_true (fun front state first taken => ?_) (fun call member => by cases member)
    rw [prefix_nil] at first
    subst first
    cases taken
    exact conforms
  | @cons _ next _ call _ meets taken _ hypothesis =>
    rw [forall_mem_cons]
    constructor
    · intro always
      have after : next.Conforms := always [call] next
        (cons_prefix_cons.mpr ⟨rfl, nil_prefix⟩) (.cons meets taken (.nil next))
      refine ⟨conforms.harmless kept meets taken after,
        (hypothesis (kept.step taken) after).mp fun front state first later => ?_⟩
      exact always (call :: front) state (cons_prefix_cons.mpr ⟨rfl, first⟩)
        (.cons meets taken later)
    · rintro ⟨harmless, others⟩ front state first later
      have after := conforms.step kept meets harmless taken
      cases later with
      | nil => exact conforms
      | cons _ stepped further =>
        obtain ⟨rfl, shorter⟩ := cons_prefix_cons.mp first
        cases stepped.symm.trans taken
        exact (hypothesis (kept.step taken) after).mpr others _ state shorter further

/-- The table is exact throughout a run if and only if every fill of the run is for the block at
address zero and nothing is invalidated. -/
theorem table_exact_iff {size blkSize : BitVec 32} {falru : Falru}
    (created : Falru.create size blkSize = .ok falru) {calls : List FalruCacheCall}
    {final : FalruCache} (run : Run FalruCache.step Called (FalruCache.start falru) calls final) :
    (∀ front state, front <+: calls →
        Run FalruCache.step Called (FalruCache.start falru) front state → state.Conforms) ↔
      ∀ call ∈ calls, Harmless falru call := by
  obtain ⟨blank, _⟩ := Falru.create_blank created
  exact conforms_iff_harmless run (start_kept blank) (start_conforms blank)

theorem table_exact_iff_four_blocks : ∃ falru final,
    Falru.create 262144#32 65536#32 = .ok falru ∧
      Run FalruCache.step Called (FalruCache.start falru)
        [.access 65536, .handleFill 8 false, .access 4] final ∧
      final.Conforms ∧ final.falru.hits 1 = 1 := by
  obtain ⟨falru, created, checked⟩ : ∃ falru, Falru.create 262144#32 65536#32 = .ok falru ∧
      (decide (falru.blkAlign 8 = 0) && (guardedRun FalruCache.step Called (FalruCache.start falru)
        [.access 65536, .handleFill 8 false, .access 4]).any
          fun cache => cache.falru.hits 1 = 1) = true :=
    exists_of_check (by decide +kernel)
  rw [Bool.and_eq_true, decide_eq_true_eq] at checked
  obtain ⟨aligned, checked⟩ := checked
  obtain ⟨final, run, counted⟩ := Run.exists_check checked
  refine ⟨falru, final, created, run, ?_, counted⟩
  refine (table_exact_iff created run).mpr ?_ _ final prefix_rfl run
  intro call member
  simp only [mem_cons, not_mem_nil, or_false] at member
  rcases member with rfl | rfl | rfl
  · trivial
  · exact aligned
  · trivial

/-- A line other than the first is filled, and the next lookup of it fails the assertion about the
tag. -/
theorem filled_line_fails_assertion : ∃ falru cache,
    Falru.create 262144#32 65536#32 = .ok falru ∧
      Run FalruCache.step Called (FalruCache.start falru) [.handleFill 65536 false] cache ∧
      cache.falru.findBlock 65536 = .error .wrongTag ∧
      cache.step (.access 65536) = .error .wrongTag := by
  obtain ⟨falru, created, checked⟩ : ∃ falru, Falru.create 262144#32 65536#32 = .ok falru ∧
      (guardedRun FalruCache.step Called (FalruCache.start falru) [.handleFill 65536 false]).any
        (fun cache => raised (cache.falru.findBlock 65536) = some .wrongTag ∧
          raised (cache.step (.access 65536)) = some .wrongTag) = true :=
    exists_of_check (by decide +kernel)
  obtain ⟨cache, run, found, accessed⟩ := Run.exists_check checked
  exact ⟨falru, cache, created, run, eq_error_of_raised found, eq_error_of_raised accessed⟩

end FalruCache

end Gem5.Mem
