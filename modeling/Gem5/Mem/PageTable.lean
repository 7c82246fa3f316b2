/-
This file models the functional page table: a map from pages to entries, and a cache of the
three translations that were used last. The cache is a shift register. A page that is mapped,
moved or looked up enters it at the front, and a page that is mapped again, moved away or
unmapped is invalidated in the first place where it is found.

The file proves that a look-up gives what the calls have established, as long as no page is
moved to a page that is in the cache. Such a move leaves two entries for one page in the cache,
only the first of which the next unmapping invalidates. Addresses wrap, and so do regions.
-/

import Gem5.Base.AddrRange
import Gem5.Library.Run
import Mathlib

namespace Gem5.Mem.PageTable

open Library List Function
open Base (Addr)

inductive Fault where
  | unaligned
  | alreadyMapped
  | notMapped
deriving DecidableEq, Repr

structure Config where
  pid : Nat
  pageSize : Nat
  pagePower : ∃ exponent < 64, pageSize = 2 ^ exponent

namespace Config

variable (config : Config) (base : Addr)

def offsetMask : Addr := BitVec.ofNat 64 config.pageSize - 1

/-- The first page after a page. -/
def next : Addr := base + BitVec.ofNat 64 config.pageSize

/-- A page some pages after a page. -/
def page (index : Nat) : Addr := base + BitVec.ofNat 64 (index * config.pageSize)

@[simp]
theorem page_zero : config.page base 0 = base := by
  rw [page, Nat.zero_mul]
  exact BitVec.add_zero base

theorem page_succ (index : Nat) :
    config.page base (index + 1) = config.page (config.next base) index := by
  rw [page, page, next, Nat.succ_mul, Nat.add_comm, BitVec.ofNat_add, BitVec.add_assoc]

theorem next_add_sub (other page : Addr) :
    config.next other + (page - config.next base) = other + (page - base) := by
  rw [next, next]
  ring

/-- The pages of a region that does not go around are different from its first one. -/
theorem page_ne {index count : Nat} (fits : count * config.pageSize ≤ 2 ^ 64) (later : index ≠ 0)
    (inRange : index < count) : config.page base index ≠ base := by
  obtain ⟨exponent, _, isPower⟩ := config.pagePower
  have positive : 0 < config.pageSize := isPower ▸ Nat.two_pow_pos exponent
  have less := Nat.mul_lt_mul_of_pos_right inRange positive
  have more := Nat.mul_pos (Nat.pos_of_ne_zero later) positive
  intro same
  have none := congrArg BitVec.toNat (BitVec.add_right_eq_self.mp same)
  rw [BitVec.toNat_ofNat, Nat.mod_eq_of_lt (by omega)] at none
  exact more.ne' none

end Config

def pageOffset (config : Config) (addr : Addr) : Addr := addr &&& config.offsetMask

def pageAlign (config : Config) (addr : Addr) : Addr := addr &&& ~~~config.offsetMask

structure TlbEntry where
  pid : Nat
  vaddr : Addr
  paddr : Addr
  uncacheable : Bool
  readOnly : Bool
deriving DecidableEq, Repr

def TlbEntry.updateVaddr (vaddr : Addr) (entry : TlbEntry) : TlbEntry :=
  { entry with vaddr }

structure MappingFlags where
  clobber : Bool
  uncacheable : Bool
  readOnly : Bool
deriving DecidableEq, Repr

structure CacheElement where
  valid : Bool
  vaddr : Addr
  entry : TlbEntry
deriving DecidableEq, Repr

structure FuncPageTable where
  pTable : Addr → Option TlbEntry
  pTableCache : List CacheElement

def FuncPageTable.init : FuncPageTable where
  pTable _ := none
  pTableCache := replicate 3 ⟨false, 0, ⟨0, 0, 0, false, false⟩⟩

/-- The shift register has three places. -/
def updateCache (vaddr : Addr) (entry : TlbEntry) (cache : List CacheElement) :
    List CacheElement :=
  (⟨true, vaddr, entry⟩ :: cache).take 3

/-- The first valid place of a page becomes invalid. -/
def eraseCacheEntry (vaddr : Addr) : List CacheElement → List CacheElement
  | [] => []
  | element :: rest =>
    if element.valid ∧ element.vaddr = vaddr then { element with valid := false } :: rest
    else element :: eraseCacheEntry vaddr rest

/-- The number of rounds of a loop that takes a page off the size while the size is positive. -/
def pageCount (config : Config) (size : BitVec 64) : Nat :=
  ((size.toInt + config.pageSize - 1) / config.pageSize).toNat

/-- The size is a signed number. -/
theorem pageCount_fits (config : Config) (size : BitVec 64) :
    pageCount config size * config.pageSize ≤ 2 ^ 64 := by
  obtain ⟨exponent, small, isPower⟩ := config.pagePower
  have positive : 0 < config.pageSize := isPower ▸ Nat.two_pow_pos exponent
  have half : config.pageSize ≤ 2 ^ 63 := isPower ▸ Nat.pow_le_pow_right (by decide) (by omega)
  have bound := size.toInt_lt
  have most : (size.toInt + config.pageSize - 1) / config.pageSize * config.pageSize ≤
      size.toInt + config.pageSize - 1 := Int.ediv_mul_le _ (by omega)
  rw [pageCount]
  generalize (size.toInt + config.pageSize - 1) / config.pageSize = count at most ⊢
  cases count with
  | ofNat count =>
    have whole : (count * config.pageSize : Nat) ≤ size.toInt + config.pageSize - 1 := by
      push_cast
      exact most
    rw [Int.ofNat_eq_natCast, Int.toNat_natCast]
    omega
  | negSucc => simp

namespace FuncPageTable

def mapPage (config : Config) (flags : MappingFlags) (vaddr paddr : Addr)
    (table : FuncPageTable) : Except Fault FuncPageTable :=
  if ¬ flags.clobber ∧ (table.pTable vaddr).isSome then .error .alreadyMapped
  else
    let entry : TlbEntry :=
      { pid := config.pid, vaddr, paddr, uncacheable := flags.uncacheable
        readOnly := flags.readOnly }
    .ok {
      pTable := update table.pTable vaddr (some entry)
      pTableCache := updateCache vaddr entry (eraseCacheEntry vaddr table.pTableCache) }

def mapLoop (config : Config) (flags : MappingFlags) :
    Nat → Addr → Addr → FuncPageTable → Except Fault FuncPageTable
  | 0, _, _, table => .ok table
  | count + 1, vaddr, paddr, table => do
    let table ← table.mapPage config flags vaddr paddr
    mapLoop config flags count (config.next vaddr) (config.next paddr) table

def map (config : Config) (vaddr paddr : Addr) (size : BitVec 64) (flags : MappingFlags)
    (table : FuncPageTable) : Except Fault FuncPageTable :=
  if pageOffset config vaddr ≠ 0 then .error .unaligned
  else table.mapLoop config flags (pageCount config size) vaddr paddr

def remapPage (vaddr newVaddr : Addr) (table : FuncPageTable) : Except Fault FuncPageTable :=
  match table.pTable vaddr with
  | none => .error .notMapped
  | some entry =>
    let moved := entry.updateVaddr newVaddr
    .ok {
      pTable := update
        (update (update table.pTable newVaddr (some entry)) vaddr none)
        newVaddr (some moved)
      pTableCache := updateCache newVaddr moved (eraseCacheEntry vaddr table.pTableCache) }

def remapLoop (config : Config) :
    Nat → Addr → Addr → FuncPageTable → Except Fault FuncPageTable
  | 0, _, _, table => .ok table
  | count + 1, vaddr, newVaddr, table => do
    let table ← table.remapPage vaddr newVaddr
    remapLoop config count (config.next vaddr) (config.next newVaddr) table

def remap (config : Config) (vaddr : Addr) (size : BitVec 64) (newVaddr : Addr)
    (table : FuncPageTable) : Except Fault FuncPageTable :=
  if pageOffset config vaddr ≠ 0 then .error .unaligned
  else if pageOffset config newVaddr ≠ 0 then .error .unaligned
  else table.remapLoop config (pageCount config size) vaddr newVaddr

def unmapPage (vaddr : Addr) (table : FuncPageTable) : Except Fault FuncPageTable :=
  match table.pTable vaddr with
  | none => .error .notMapped
  | some _ =>
    .ok {
      pTable := update table.pTable vaddr none
      pTableCache := eraseCacheEntry vaddr table.pTableCache }

def unmapLoop (config : Config) : Nat → Addr → FuncPageTable → Except Fault FuncPageTable
  | 0, _, table => .ok table
  | count + 1, vaddr, table => do
    let table ← table.unmapPage vaddr
    unmapLoop config count (config.next vaddr) table

def unmap (config : Config) (vaddr : Addr) (size : BitVec 64) (table : FuncPageTable) :
    Except Fault FuncPageTable :=
  if pageOffset config vaddr ≠ 0 then .error .unaligned
  else table.unmapLoop config (pageCount config size) vaddr

/-- The entry of the page of an address, and the page table with its cache brought up to
date. -/
def lookup (config : Config) (vaddr : Addr) (table : FuncPageTable) :
    Option TlbEntry × FuncPageTable :=
  let pageAddr := pageAlign config vaddr
  match table.pTableCache.find? fun element => element.valid && element.vaddr == pageAddr with
  | some element => (some element.entry, table)
  | none =>
    match table.pTable pageAddr with
    | none => (none, table)
    | some entry =>
      (some entry, { table with pTableCache := updateCache pageAddr entry table.pTableCache })

end FuncPageTable

/-! ### The cache -/

section Cache

variable {vaddr : Addr} {cache : List CacheElement} {table : Addr → Option TlbEntry}

def live (cache : List CacheElement) : List CacheElement := cache.filter (·.valid)

/-- The valid places hold the entries of the table, and no page is in two of them. -/
structure CacheSound (table : Addr → Option TlbEntry) (cache : List CacheElement) : Prop where
  current : ∀ element ∈ live cache, table element.vaddr = some element.entry
  distinct : ((live cache).map (·.vaddr)).Nodup

/-- A page is in the cache. -/
def Cached (cache : List CacheElement) (vaddr : Addr) : Prop :=
  ∃ element ∈ cache, element.valid = true ∧ element.vaddr = vaddr
deriving Decidable

theorem cached_iff : Cached cache vaddr ↔ vaddr ∈ (live cache).map (·.vaddr) := by
  simp [Cached, live, and_assoc]

theorem live_eraseCacheEntry (vaddr : Addr) (cache : List CacheElement) :
    live (eraseCacheEntry vaddr cache) = (live cache).eraseP (·.vaddr == vaddr) := by
  induction cache with
  | nil => rfl
  | cons head _ hypothesis =>
    rw [eraseCacheEntry]
    split
    · simp_all [live]
    · cases valid : head.valid <;> simp_all [live]

theorem map_live_eraseCacheEntry (vaddr : Addr) (cache : List CacheElement) :
    (live (eraseCacheEntry vaddr cache)).map (·.vaddr) =
      ((live cache).map (·.vaddr)).erase vaddr := by
  rw [live_eraseCacheEntry, erase_eq_eraseP', eraseP_map]
  rfl

theorem Cached.of_eraseCacheEntry {erased : Addr}
    (cached : Cached (eraseCacheEntry erased cache) vaddr) : Cached cache vaddr := by
  rw [cached_iff, map_live_eraseCacheEntry] at cached
  exact cached_iff.mpr (mem_of_mem_erase cached)

namespace CacheSound

theorem init : CacheSound table FuncPageTable.init.pTableCache :=
  ⟨nofun, nodup_nil⟩

section

variable (sound : CacheSound table cache)
include sound

theorem not_cached_eraseCacheEntry (vaddr : Addr) :
    ¬ Cached (eraseCacheEntry vaddr cache) vaddr := by
  rw [cached_iff, map_live_eraseCacheEntry]
  exact sound.distinct.not_mem_erase

theorem erase (vaddr : Addr) : CacheSound table (eraseCacheEntry vaddr cache) where
  current element member := by
    rw [live_eraseCacheEntry] at member
    exact sound.current element (mem_of_mem_eraseP member)
  distinct := by
    rw [map_live_eraseCacheEntry]
    exact sound.distinct.erase vaddr

theorem change {next : Addr → Option TlbEntry}
    (same : ∀ page, Cached cache page → next page = table page) : CacheSound next cache where
  current element member :=
    (same element.vaddr (cached_iff.mpr (mem_map_of_mem member))).trans
      (sound.current element member)
  distinct := sound.distinct

theorem push {entry : TlbEntry} (isEntry : table vaddr = some entry)
    (fresh : ¬ Cached cache vaddr) : CacheSound table (updateCache vaddr entry cache) := by
  have fewer : (live (updateCache vaddr entry cache)).Sublist
      (⟨true, vaddr, entry⟩ :: live cache) :=
    (take_sublist _ _).filter _
  rw [cached_iff] at fresh
  refine ⟨fun element member => ?_, (nodup_cons.mpr ⟨fresh, sound.distinct⟩).sublist (fewer.map _)⟩
  obtain rfl | earlier := mem_cons.mp (fewer.mem member)
  · exact isEntry
  · exact sound.current element earlier

/-- The entry of a page may change when the page is invalidated. -/
theorem eraseUpdate (vaddr : Addr) (entry : Option TlbEntry) :
    CacheSound (update table vaddr entry) (eraseCacheEntry vaddr cache) := by
  refine (sound.erase vaddr).change fun page cached => update_of_ne ?_ _ _
  rintro rfl
  exact sound.not_cached_eraseCacheEntry page cached

end

theorem lookup (config : Config) {pages : FuncPageTable}
    (sound : CacheSound pages.pTable pages.pTableCache) (vaddr : Addr) :
    (pages.lookup config vaddr).1 = pages.pTable (pageAlign config vaddr) ∧
      (pages.lookup config vaddr).2.pTable = pages.pTable ∧
      CacheSound pages.pTable (pages.lookup config vaddr).2.pTableCache := by
  rw [FuncPageTable.lookup]
  split
  · rename_i element found
    have matched := find?_some found
    rw [Bool.and_eq_true] at matched
    have current := sound.current element
      (mem_filter.mpr ⟨mem_of_find?_eq_some found, matched.1⟩)
    rw [eq_of_beq matched.2] at current
    exact ⟨current.symm, rfl, sound⟩
  · rename_i missing
    have fresh : ¬ Cached pages.pTableCache (pageAlign config vaddr) := by
      rintro ⟨element, member, valid, isPage⟩
      refine absurd ?_ (find?_eq_none.mp missing element member)
      rw [valid, isPage, beq_self_eq_true]
      rfl
    split
    · rename_i notMapped
      exact ⟨notMapped.symm, rfl, sound⟩
    · rename_i entry isEntry
      exact ⟨isEntry.symm, rfl, sound.push isEntry fresh⟩

section

variable {pages next : FuncPageTable} (sound : CacheSound pages.pTable pages.pTableCache)
include sound

theorem mapPage {config : Config} {flags : MappingFlags} {paddr : Addr}
    (taken : pages.mapPage config flags vaddr paddr = .ok next) :
    CacheSound next.pTable next.pTableCache := by
  rw [FuncPageTable.mapPage] at taken
  split at taken
  · cases taken
  · cases taken
    exact (sound.eraseUpdate vaddr _).push (update_self vaddr _ _)
      (sound.not_cached_eraseCacheEntry vaddr)

theorem unmapPage (taken : pages.unmapPage vaddr = .ok next) :
    CacheSound next.pTable next.pTableCache := by
  rw [FuncPageTable.unmapPage] at taken
  split at taken
  · cases taken
  · cases taken
    exact sound.eraseUpdate vaddr none

theorem remapPage {newVaddr : Addr} (notCached : ¬ Cached pages.pTableCache newVaddr)
    (taken : pages.remapPage vaddr newVaddr = .ok next) :
    CacheSound next.pTable next.pTableCache := by
  rw [FuncPageTable.remapPage] at taken
  split at taken
  · cases taken
  · cases taken
    have freshNew : ¬ Cached (eraseCacheEntry vaddr pages.pTableCache) newVaddr :=
      fun cached => notCached cached.of_eraseCacheEntry
    refine ((sound.eraseUpdate vaddr none).change fun page cached => ?_).push
      (update_self newVaddr _ _) freshNew
    have notNew : page ≠ newVaddr := fun same => freshNew (same ▸ cached)
    dsimp only
    rw [update_of_ne notNew, update_apply, update_of_ne notNew, update_apply]

end

end CacheSound

end Cache

/-! ### Regions -/

section Regions

variable {config : Config} {base other page vaddr newVaddr : Addr} {count : Nat}
  {pages next : FuncPageTable}

/-- A page of a region that starts at a page and has a number of pages. -/
def InRegion (config : Config) (base : Addr) (count : Nat) (page : Addr) : Prop :=
  ∃ index < count, page = config.page base index

instance : Decidable (InRegion config base count page) :=
  inferInstanceAs (Decidable (∃ index < count, _))

theorem not_inRegion_zero : ¬ InRegion config base 0 page :=
  fun ⟨index, inRange, _⟩ => Nat.not_lt_zero index inRange

theorem inRegion_succ :
    InRegion config base (count + 1) page ↔
      page = base ∨ InRegion config (config.next base) count page := by
  constructor
  · rintro ⟨index, inRange, rfl⟩
    cases index with
    | zero => exact .inl (config.page_zero base)
    | succ index => exact .inr ⟨index, Nat.lt_of_succ_lt_succ inRange, config.page_succ base index⟩
  · rintro (rfl | ⟨index, inRange, rfl⟩)
    · exact ⟨0, Nat.succ_pos count, (config.page_zero page).symm⟩
    · exact ⟨index + 1, Nat.succ_lt_succ inRange, (config.page_succ base index).symm⟩

theorem ite_inRegion_succ {Value : Type} (value table : Addr → Value) :
    (if InRegion config (config.next base) count page then value page
      else update table base (value base) page) =
    if InRegion config base (count + 1) page then value page else table page := by
  by_cases later : InRegion config (config.next base) count page
  · rw [if_pos later, if_pos (inRegion_succ.mpr (.inr later))]
  · rw [if_neg later]
    by_cases isFirst : page = base
    · rw [if_pos (inRegion_succ.mpr (.inl isFirst)), isFirst, update_self]
    · rw [if_neg fun inRegion => (inRegion_succ.mp inRegion).elim isFirst later,
        update_of_ne isFirst]

/-- The pages of a region with the physical region behind them. -/
def mapRegion (config : Config) (flags : MappingFlags) (count : Nat) (vaddr paddr : Addr)
    (mapping : Addr → Option TlbEntry) (page : Addr) : Option TlbEntry :=
  if InRegion config vaddr count page then
    some {
      pid := config.pid
      vaddr := page
      paddr := paddr + (page - vaddr)
      uncacheable := flags.uncacheable
      readOnly := flags.readOnly }
  else mapping page

/-- The entries of a region are moved to another one. -/
def moveRegion (config : Config) (count : Nat) (vaddr newVaddr : Addr)
    (mapping : Addr → Option TlbEntry) (page : Addr) : Option TlbEntry :=
  if InRegion config newVaddr count page then
    (mapping (vaddr + (page - newVaddr))).map (TlbEntry.updateVaddr page)
  else if InRegion config vaddr count page then none
  else mapping page

def unmapRegion (config : Config) (count : Nat) (vaddr : Addr)
    (mapping : Addr → Option TlbEntry) (page : Addr) : Option TlbEntry :=
  if InRegion config vaddr count page then none else mapping page

theorem mapLoop_pTable {flags : MappingFlags} {paddr : Addr}
    (taken : pages.mapLoop config flags count vaddr paddr = .ok next) :
    next.pTable = mapRegion config flags count vaddr paddr pages.pTable := by
  induction count generalizing vaddr paddr pages with
  | zero =>
    cases taken
    funext page
    rw [mapRegion, if_neg not_inRegion_zero]
  | succ _ hypothesis =>
    obtain ⟨_, mapped, continued⟩ := bind_eq_ok taken
    rw [hypothesis continued]
    rw [FuncPageTable.mapPage] at mapped
    obtain ⟨-, mapped⟩ := else_eq_ok mapped
    cases mapped
    funext page
    refine Eq.trans ?_ (ite_inRegion_succ (fun page => some ⟨config.pid, page,
      paddr + (page - vaddr), flags.uncacheable, flags.readOnly⟩) pages.pTable)
    rw [BitVec.sub_self, BitVec.add_zero]
    refine ite_congr rfl (fun _ => ?_) fun _ => rfl
    rw [config.next_add_sub]

theorem unmapLoop_pTable (taken : pages.unmapLoop config count vaddr = .ok next) :
    next.pTable = unmapRegion config count vaddr pages.pTable := by
  induction count generalizing vaddr pages with
  | zero =>
    cases taken
    funext page
    rw [unmapRegion, if_neg not_inRegion_zero]
  | succ _ hypothesis =>
    obtain ⟨_, unmapped, continued⟩ := bind_eq_ok taken
    rw [hypothesis continued]
    rw [FuncPageTable.unmapPage] at unmapped
    split at unmapped
    · cases unmapped
    · cases unmapped
      funext page
      exact ite_inRegion_succ (fun _ => none) pages.pTable

/-- Two regions have no page in common. -/
def DisjointRegions (config : Config) (count : Nat) (base other : Addr) : Prop :=
  ∀ first < count, ∀ second < count, config.page base first ≠ config.page other second

instance : Decidable (DisjointRegions config count base other) :=
  inferInstanceAs (Decidable (∀ first < count, ∀ second < count, _))

theorem DisjointRegions.not_inRegion (disjoint : DisjointRegions config count base other)
    (inRegion : InRegion config base count page) : ¬ InRegion config other count page := by
  obtain ⟨first, firstInRange, rfl⟩ := inRegion
  rintro ⟨second, secondInRange, same⟩
  exact disjoint first firstInRange second secondInRange same

theorem DisjointRegions.tail (disjoint : DisjointRegions config (count + 1) base other) :
    DisjointRegions config count (config.next base) (config.next other) := by
  intro first firstInRange second secondInRange
  rw [← config.page_succ, ← config.page_succ]
  exact disjoint (first + 1) (Nat.succ_lt_succ firstInRange) (second + 1)
    (Nat.succ_lt_succ secondInRange)

theorem remapLoop_pTable (fits : count * config.pageSize ≤ 2 ^ 64)
    (disjoint : DisjointRegions config count vaddr newVaddr)
    (taken : pages.remapLoop config count vaddr newVaddr = .ok next) :
    next.pTable = moveRegion config count vaddr newVaddr pages.pTable := by
  induction count generalizing vaddr newVaddr pages with
  | zero =>
    cases taken
    funext page
    rw [moveRegion, if_neg not_inRegion_zero, if_neg not_inRegion_zero]
  | succ count hypothesis =>
    obtain ⟨_, moved, continued⟩ := bind_eq_ok taken
    have less : count * config.pageSize ≤ 2 ^ 64 :=
      (Nat.mul_le_mul_right _ (Nat.le_succ count)).trans fits
    rw [hypothesis less disjoint.tail continued]
    rw [FuncPageTable.remapPage] at moved
    split at moved
    · cases moved
    · rename_i entry isEntry
      cases moved
      funext page
      rw [moveRegion, moveRegion]
      dsimp only
      by_cases laterNew : InRegion config (config.next newVaddr) count page
      · rw [if_pos laterNew, if_pos (inRegion_succ.mpr (.inr laterNew))]
        obtain ⟨index, inRange, rfl⟩ := laterNew
        have inside := Nat.succ_lt_succ inRange
        have place : vaddr + (config.page (config.next newVaddr) index - newVaddr) =
            config.page vaddr (index + 1) := by
          rw [← config.page_succ, Config.page, Config.page, BitVec.add_comm newVaddr,
            BitVec.add_sub_cancel]
        have notFirst := config.page_ne vaddr fits index.succ_ne_zero inside
        have notNew : config.page vaddr (index + 1) ≠ newVaddr := by
          have apart := disjoint (index + 1) inside 0 (Nat.succ_pos count)
          rwa [config.page_zero] at apart
        rw [config.next_add_sub, place, update_of_ne notNew, update_of_ne notFirst,
          update_of_ne notNew]
      · rw [if_neg laterNew]
        by_cases isNew : page = newVaddr
        · subst isNew
          have notOld : ¬ InRegion config (config.next vaddr) count page := by
            intro laterOld
            exact disjoint.not_inRegion (inRegion_succ.mpr (.inr laterOld))
              (inRegion_succ.mpr (.inl rfl))
          rw [if_neg notOld, if_pos (inRegion_succ.mpr (.inl rfl)), BitVec.sub_self,
            BitVec.add_zero, isEntry, update_self]
          rfl
        · rw [if_neg fun inRegion => (inRegion_succ.mp inRegion).elim isNew laterNew,
            update_of_ne isNew]
          refine (ite_inRegion_succ (fun _ => none) _).trans (ite_congr rfl (fun _ => rfl) ?_)
          exact fun _ => update_of_ne isNew _ _

end Regions

/-! ### The loops and the cache -/

section Loops

variable {config : Config} {count : Nat} {vaddr newVaddr : Addr} {pages next : FuncPageTable}

theorem CacheSound.mapLoop {flags : MappingFlags} {paddr : Addr}
    (sound : CacheSound pages.pTable pages.pTableCache)
    (taken : pages.mapLoop config flags count vaddr paddr = .ok next) :
    CacheSound next.pTable next.pTableCache := by
  induction count generalizing vaddr paddr pages with
  | zero =>
    cases taken
    exact sound
  | succ _ hypothesis =>
    obtain ⟨_, mapped, continued⟩ := bind_eq_ok taken
    exact hypothesis (sound.mapPage mapped) continued

theorem CacheSound.unmapLoop (sound : CacheSound pages.pTable pages.pTableCache)
    (taken : pages.unmapLoop config count vaddr = .ok next) :
    CacheSound next.pTable next.pTableCache := by
  induction count generalizing vaddr pages with
  | zero =>
    cases taken
    exact sound
  | succ _ hypothesis =>
    obtain ⟨_, unmapped, continued⟩ := bind_eq_ok taken
    exact hypothesis (sound.unmapPage unmapped) continued

/-- No page of a region is in the cache. -/
def NotCached (config : Config) (count : Nat) (base : Addr) (cache : List CacheElement) : Prop :=
  ∀ index < count, ¬ Cached cache (config.page base index)

instance (base : Addr) (cache : List CacheElement) :
    Decidable (NotCached config count base cache) :=
  inferInstanceAs (Decidable (∀ index < count, _))

theorem NotCached.remapPage (fits : (count + 1) * config.pageSize ≤ 2 ^ 64)
    (notCached : NotCached config (count + 1) newVaddr pages.pTableCache)
    (taken : pages.remapPage vaddr newVaddr = .ok next) :
    NotCached config count (config.next newVaddr) next.pTableCache := by
  rw [FuncPageTable.remapPage] at taken
  split at taken
  · cases taken
  · cases taken
    rintro index inRange ⟨element, member, valid, isPage⟩
    rw [← config.page_succ] at isPage
    obtain rfl | earlier := mem_cons.mp (mem_of_mem_take member)
    · exact config.page_ne newVaddr fits index.succ_ne_zero (Nat.succ_lt_succ inRange) isPage.symm
    · have cached : Cached (eraseCacheEntry vaddr pages.pTableCache) _ :=
        ⟨element, earlier, valid, isPage⟩
      exact notCached (index + 1) (Nat.succ_lt_succ inRange) cached.of_eraseCacheEntry

theorem CacheSound.remapLoop (fits : count * config.pageSize ≤ 2 ^ 64)
    (sound : CacheSound pages.pTable pages.pTableCache)
    (notCached : NotCached config count newVaddr pages.pTableCache)
    (taken : pages.remapLoop config count vaddr newVaddr = .ok next) :
    CacheSound next.pTable next.pTableCache := by
  induction count generalizing vaddr newVaddr pages with
  | zero =>
    cases taken
    exact sound
  | succ count hypothesis =>
    obtain ⟨_, moved, continued⟩ := bind_eq_ok taken
    have freshFirst : ¬ Cached pages.pTableCache newVaddr := by
      have fresh := notCached 0 (Nat.succ_pos count)
      rwa [config.page_zero] at fresh
    exact hypothesis ((Nat.mul_le_mul_right _ (Nat.le_succ count)).trans fits)
      (sound.remapPage freshFirst moved) (notCached.remapPage fits moved) continued

end Loops

/-! ### Calls -/

inductive Call where
  | map (vaddr paddr : Addr) (size : BitVec 64) (flags : MappingFlags)
  | remap (vaddr : Addr) (size : BitVec 64) (newVaddr : Addr)
  | unmap (vaddr : Addr) (size : BitVec 64)
  | lookup (vaddr : Addr)
deriving Repr

/-- The page table, with the mapping that the calls have established. -/
structure Trace where
  pages : FuncPageTable
  established : Addr → Option TlbEntry

namespace Trace

variable {config : Config}

def start : Trace where
  pages := .init
  established _ := none

def step (config : Config) (trace : Trace) : Call → Except Fault Trace
  | .map vaddr paddr size flags => do
    let pages ← trace.pages.map config vaddr paddr size flags
    return {
      pages
      established :=
        mapRegion config flags (pageCount config size) vaddr paddr trace.established }
  | .remap vaddr size newVaddr => do
    let pages ← trace.pages.remap config vaddr size newVaddr
    return {
      pages
      established := moveRegion config (pageCount config size) vaddr newVaddr trace.established }
  | .unmap vaddr size => do
    let pages ← trace.pages.unmap config vaddr size
    return {
      pages, established := unmapRegion config (pageCount config size) vaddr trace.established }
  | .lookup vaddr => .ok { trace with pages := (trace.pages.lookup config vaddr).2 }

/-- Source and destination of a remapping are disjoint. -/
def Disjoint (config : Config) : Call → Prop
  | .remap vaddr size newVaddr => DisjointRegions config (pageCount config size) vaddr newVaddr
  | .map _ _ _ _ => True
  | .unmap _ _ => True
  | .lookup _ => True

def Fresh (config : Config) (trace : Trace) : Call → Prop
  | .remap _ size newVaddr =>
    NotCached config (pageCount config size) newVaddr trace.pages.pTableCache
  | .map _ _ _ _ => True
  | .unmap _ _ => True
  | .lookup _ => True

instance : (call : Call) → Decidable (Disjoint config call)
  | .remap .. => inferInstanceAs (Decidable (DisjointRegions ..))
  | .map .. | .unmap .. | .lookup _ => .isTrue trivial

instance (trace : Trace) : (call : Call) → Decidable (Fresh config trace call)
  | .remap .. => inferInstanceAs (Decidable (NotCached ..))
  | .map .. | .unmap .. | .lookup _ => .isTrue trivial

/-- The table is what has been established, and the cache agrees with it. -/
structure Sound (trace : Trace) : Prop where
  pTable : trace.pages.pTable = trace.established
  cache : CacheSound trace.pages.pTable trace.pages.pTableCache

theorem Sound.step {trace next : Trace} (call : Call) (sound : Sound trace)
    (disjoint : Disjoint config call) (fresh : Fresh config trace call)
    (taken : trace.step config call = .ok next) : Sound next := by
  cases call with
  | map =>
    obtain ⟨_, mapped, rfl⟩ := map_eq_ok taken
    rw [FuncPageTable.map] at mapped
    split at mapped
    · cases mapped
    · exact ⟨(mapLoop_pTable mapped).trans (congrArg _ sound.pTable), sound.cache.mapLoop mapped⟩
  | remap =>
    obtain ⟨_, moved, rfl⟩ := map_eq_ok taken
    rw [FuncPageTable.remap] at moved
    obtain ⟨-, moved⟩ := else_eq_ok moved
    split at moved
    · cases moved
    · exact ⟨(remapLoop_pTable (pageCount_fits ..) disjoint moved).trans (congrArg _ sound.pTable),
        sound.cache.remapLoop (pageCount_fits ..) fresh moved⟩
  | unmap =>
    obtain ⟨_, unmapped, rfl⟩ := map_eq_ok taken
    rw [FuncPageTable.unmap] at unmapped
    split at unmapped
    · cases unmapped
    · exact ⟨(unmapLoop_pTable unmapped).trans (congrArg _ sound.pTable),
        sound.cache.unmapLoop unmapped⟩
  | lookup vaddr =>
    cases taken
    obtain ⟨_, same, current⟩ := sound.cache.lookup config vaddr
    refine ⟨same.trans sound.pTable, ?_⟩
    rw [same]
    exact current

/-- After any calls whose remappings have disjoint regions and go to pages that are not in the
cache, a look-up gives what has been established for the page of the address. -/
theorem lookup_established {calls : List Call} {final : Trace}
    (run : Run (step config) (fun trace call => Disjoint config call ∧ Fresh config trace call)
      start calls final) (vaddr : Addr) :
    (final.pages.lookup config vaddr).1 = final.established (pageAlign config vaddr) := by
  have sound : Sound final := run.invariant Sound
    (fun sound meets taken => Sound.step _ sound meets.1 meets.2 taken)
    ⟨rfl, .init⟩
  rw [(sound.cache.lookup config vaddr).1, sound.pTable]

/-- Pages of 4096 bytes. -/
def smallPages : Config where
  pid := 1
  pageSize := 4096
  pagePower := ⟨12, by decide, rfl⟩

def noFlags : MappingFlags where
  clobber := false
  uncacheable := false
  readOnly := false

theorem lookup_established_moved :
    ∃ final, Run (step smallPages)
        (fun trace call => Disjoint smallPages call ∧ Fresh smallPages trace call) start
        [.map 4096 65536 8192 noFlags, .lookup 5000, .remap 4096 4096 16384, .unmap 8192 4096]
        final ∧
      (final.pages.lookup smallPages 16400).1 = final.established (pageAlign smallPages 16400) := by
  exact Run.exists_checked (fun final => (final.established 16384).isSome = true)
    (by decide +kernel) fun _ run _ => lookup_established run 16400

/-- The page at 4096 is moved to the page at 8192, which is mapped and in the cache, and is
unmapped there: the look-up of the page still gives its old entry. -/
theorem lookup_stale :
    ∃ final, Run (step smallPages) (fun _ call => Disjoint smallPages call) start
        [.map 4096 65536 4096 noFlags, .map 8192 131072 4096 noFlags, .remap 4096 4096 8192,
          .unmap 8192 4096] final ∧
      final.established 8192 = none ∧
      (final.pages.lookup smallPages 8192).1 = some ⟨1, 8192, 131072, false, false⟩ := by
  exact Run.exists_check (by decide +kernel)

end Trace

end Gem5.Mem.PageTable
