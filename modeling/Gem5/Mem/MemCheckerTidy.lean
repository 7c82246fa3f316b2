/-
This file shows what the trackers of the memory checker keep. All clusters but
the last are complete, a complete cluster has the completion tick of its last
write, and the first observation completed before every outstanding read began.
The file also says what the scan through the writes finds out, and what the
pruning keeps.
-/

import Gem5.Mem.MemChecker

namespace Gem5.Mem

open Base Library List

/-! ### The scan through the writes -/

namespace ByteTracker

variable {last_obs : Transaction} {start : Nat} {data : Byte}

/-- What a scan through writes says about them. Writes that completed before the last observation
do not count. -/
structure Scanned (last_obs : Transaction) (start : Nat) (data : Byte)
    (writes : List Transaction) (scan result : Scan) : Prop where
  found : result.found = false ↔ scan.found = false ∧
    ∀ write ∈ writes, last_obs.start ≤ write.complete → write.data ≠ data
  overlap : result.found = false → (result.wc_overlap = true ↔ scan.wc_overlap = true ∧
    ∀ write ∈ writes, last_obs.start ≤ write.complete → start < write.complete)
  valid : result.found = false → (result.last_obs_valid = true ↔ scan.last_obs_valid = true ∧
    ∀ write ∈ writes, last_obs.start ≤ write.complete → write.complete ≤ start →
      write.start ≤ last_obs.complete)
  expected : result.found = false → (result.expectedData = [] ↔ scan.expectedData = [] ∧
    ∀ write ∈ writes, write.complete < last_obs.start)

theorem Scanned.nil (scan : Scan) : Scanned last_obs start data [] scan scan := by
  refine ⟨?_, fun _ => ?_, fun _ => ?_, fun _ => ?_⟩ <;>
    simp only [not_mem_nil, false_imp_iff, implies_true, and_true]

variable {scan result : Scan} {writes : List Transaction}

theorem Scanned.append {first second : List Transaction} {middle : Scan}
    (one : Scanned last_obs start data first scan middle)
    (two : Scanned last_obs start data second middle result) :
    Scanned last_obs start data (first ++ second) scan result := by
  refine ⟨?_, fun missed => ?_, fun missed => ?_, fun missed => ?_⟩
  · rw [two.found, one.found, forall_mem_append, and_assoc]
  · rw [two.overlap missed, one.overlap (two.found.mp missed).1, forall_mem_append, and_assoc]
  · rw [two.valid missed, one.valid (two.found.mp missed).1, forall_mem_append, and_assoc]
  · rw [two.expected missed, one.expected (two.found.mp missed).1, forall_mem_append, and_assoc]

section

variable (scanned : Scanned last_obs start data writes scan result)
include scanned

theorem Scanned.congr {other : List Transaction} (same : ∀ write, write ∈ other ↔ write ∈ writes) :
    Scanned last_obs start data other scan result := by
  refine ⟨?_, ?_, ?_, ?_⟩ <;> simp only [same]
  · exact scanned.found
  · exact scanned.overlap
  · exact scanned.valid
  · exact scanned.expected

theorem Scanned.stopped (missed : result.found = false)
    (began : scan.wc_overlap = true) (stops : result.wc_overlap = false) :
    ∃ write ∈ writes, last_obs.start ≤ write.complete ∧ write.complete ≤ start := by
  by_contra none
  have goesOn := (scanned.overlap missed).mpr ⟨began, fun write member counts =>
    not_le.mp fun completes => none ⟨write, member, counts, completes⟩⟩
  rw [stops] at goesOn
  cases goesOn

theorem Scanned.invalid (missed : result.found = false)
    (began : scan.last_obs_valid = true) (ends : ¬ result.last_obs_valid = true) :
    ∃ write ∈ writes, last_obs.start ≤ write.complete ∧ write.complete ≤ start ∧
      last_obs.complete < write.start := by
  by_contra none
  exact ends ((scanned.valid missed).mpr ⟨began, fun write member counts completes =>
    not_lt.mp fun later => none ⟨write, member, counts, completes, later⟩⟩)

end

theorem scanned_scanWrite (scan : Scan) (write : Transaction) :
    Scanned last_obs start data [write] scan (scanWrite last_obs start data scan write) := by
  rw [scanWrite]
  by_cases found : scan.found = true
  · rw [if_pos found]
    refine ⟨?_, ?_, ?_, ?_⟩ <;> simp [found]
  · have missed : scan.found = false := Bool.not_eq_true _ ▸ found
    rw [if_neg found]
    by_cases before : write.complete < last_obs.start
    · rw [if_pos before]
      refine ⟨?_, fun _ => ?_, fun _ => ?_, fun _ => ?_⟩ <;> simp [before]
    · rw [if_neg before]
      have counts : last_obs.start ≤ write.complete := not_lt.mp before
      by_cases same : write.data = data
      · rw [if_pos same]
        refine ⟨?_, ?_, ?_, ?_⟩ <;> simp [counts, same]
      · rw [if_neg same]
        by_cases overlaps : start < write.complete
        · rw [if_pos overlaps]
          refine ⟨?_, fun _ => ?_, fun _ => ?_, fun _ => ?_⟩ <;>
            simp [counts, same, overlaps, before]
        · rw [if_neg overlaps]
          refine ⟨?_, fun _ => ?_, fun _ => ?_, fun _ => ?_⟩ <;>
            simp [counts, same, overlaps, before, not_lt.mp overlaps, and_comm]

theorem scanned_foldl (last_obs : Transaction) (start : Nat) (data : Byte)
    (writes : List Transaction) (scan : Scan) :
    Scanned last_obs start data writes scan
      (writes.foldl (scanWrite last_obs start data) scan) := by
  induction writes generalizing scan with
  | nil => exact .nil scan
  | cons write _ hypothesis =>
    exact (scanned_scanWrite scan write).append (hypothesis _)

theorem scanned_clusters (last_obs : Transaction) (start : Nat) (data : Byte)
    (clusters : List WriteCluster) (scan : Scan) :
    ∃ newer older, clusters = newer ++ older ∧
      Scanned last_obs start data (newer.flatMap WriteCluster.writes) scan
        (clusters.foldl (scanCluster last_obs start data) scan) ∧
      (older = [] ∨
        (clusters.foldl (scanCluster last_obs start data) scan).wc_overlap = false) := by
  induction clusters generalizing scan with
  | nil => exact ⟨[], [], rfl, .nil scan, .inl rfl⟩
  | cons cluster _ hypothesis =>
    obtain ⟨newer, older, rfl, scanned, ends⟩ :=
      hypothesis (scanCluster last_obs start data scan cluster)
    by_cases overlaps : scan.wc_overlap = true
    · refine ⟨cluster :: newer, older, rfl, ?_, ends⟩
      have first := scanned_foldl last_obs start data cluster.writes scan
      refine first.append ?_
      rw [scanCluster, if_pos overlaps] at scanned
      rw [foldl_cons, scanCluster, if_pos overlaps]
      exact scanned
    · rw [foldl_fixed' fun _ => if_neg overlaps]
      exact ⟨[], cluster :: (newer ++ older), rfl, .nil scan, .inr (Bool.not_eq_true _ ▸ overlaps)⟩

theorem scanned_scanClusters (tracker : ByteTracker) (last_obs : Transaction) (start : Nat)
    (data : Byte) : ∃ older newer, tracker.writeClusters = older ++ newer ∧
      Scanned last_obs start data (newer.flatMap WriteCluster.writes)
        ⟨false, true, last_obs.complete != tickInitial, []⟩
        (tracker.scanClusters last_obs start data) ∧
      (older = [] ∨ (tracker.scanClusters last_obs start data).wc_overlap = false) := by
  obtain ⟨newer, older, reversed, scanned, ends⟩ :=
    scanned_clusters last_obs start data tracker.writeClusters.reverse
    ⟨false, true, last_obs.complete != tickInitial, []⟩
  refine ⟨older.reverse, newer.reverse, ?_, ?_, ends.imp_left fun none => by rw [none]; rfl⟩
  · rw [← reverse_append, ← reversed, reverse_reverse]
  · have same (write : Transaction) : write ∈ newer.reverse.flatMap WriteCluster.writes ↔
        write ∈ newer.flatMap WriteCluster.writes := by
      simp only [mem_flatMap, mem_reverse]
    exact scanned.congr same

/-! ### The last completed transaction -/

theorem scanBack_spec (late : Nat → Bool) (last : Nat) :
    scanBack late last ≤ last ∧ (scanBack late last = 0 ∨ late (scanBack late last) = false) ∧
      ∀ position, scanBack late last < position → position ≤ last → late position = true := by
  induction last with
  | zero => exact ⟨le_rfl, .inl rfl, fun position above below => by omega⟩
  | succ last hypothesis =>
    rw [scanBack]
    obtain ⟨inside, stops, passed⟩ := hypothesis
    by_cases here : late (last + 1) = true
    · rw [if_pos here]
      refine ⟨Nat.le_succ_of_le inside, stops, fun position above below => ?_⟩
      rcases Nat.le_succ_iff.mp below with lower | rfl
      · exact passed position above lower
      · exact here
    · rw [if_neg here]
      exact ⟨le_rfl, .inr (Bool.not_eq_true _ ▸ here), fun position above below => by omega⟩

variable {Element : Type} {l : List Element}

theorem lastCompletedTransaction_spec (complete : Element → Nat) (nonempty : l ≠ [])
    (before : Nat) :
    ∃ older it rest, lastCompletedTransaction complete l before = .ok (it, rest) ∧
      l = older ++ it :: rest ∧ (∀ element ∈ rest, before ≤ complete element) ∧
      (older = [] ∨ complete it < before) := by
  have some : 0 < l.length := length_pos_iff.mpr nonempty
  rw [lastCompletedTransaction]
  obtain ⟨inside, stops, passed⟩ := scanBack_spec
    (fun position => l[position]?.any fun element => before ≤ complete element) (l.length - 1)
  generalize scanBack (fun position => l[position]?.any fun element => before ≤ complete element)
    (l.length - 1) = place at inside stops passed
  have bound : place < l.length := by omega
  rw [drop_eq_getElem_cons bound]
  refine ⟨l.take place, l[place], l.drop (place + 1), rfl, ?_, fun element member => ?_, ?_⟩
  · rw [← drop_eq_getElem_cons bound, take_append_drop]
  · obtain ⟨position, there, rfl⟩ := mem_iff_getElem.mp member
    rw [length_drop] at there
    have late := passed (place + 1 + position) (by omega) (by omega)
    rw [getElem?_eq_getElem (by omega), Option.any_some, decide_eq_true_iff] at late
    rw [getElem_drop]
    exact late
  · refine stops.imp (fun zero => by rw [zero, take_zero]) fun early => ?_
    rw [getElem?_eq_getElem bound, Option.any_some, decide_eq_false_iff_not] at early
    exact not_le.mp early

end ByteTracker

/-! ### Clusters -/

/-- What a cluster keeps: of the serials used so far, those of the writes in flight have no
completion tick yet. -/
structure ClusterTidy (cluster : WriteCluster) (now : Nat) (used live : Set Serial) : Prop where
  started : cluster.start = tickFuture ∨ cluster.start ≤ now
  distinct : cluster.writes.Pairwise fun first second => first.serial ≠ second.serial
  used : ∀ write ∈ cluster.writes, write.serial ∈ used
  inFlight : ∀ write ∈ cluster.writes, write.serial ∈ live → write.complete = tickFuture
  count : cluster.numIncomplete = cluster.writes.countP fun write => write.complete = tickFuture
  completed : ∀ write ∈ cluster.writes, write.complete ≠ tickFuture →
    write.complete ≤ cluster.completeMax
  maximum : cluster.completeMax ≤ now
  attained : cluster.completeMax = tickInitial ∨
    ∃ write ∈ cluster.writes, write.complete = cluster.completeMax
  closed : cluster.complete ≠ tickFuture → cluster.complete = cluster.completeMax ∧
    cluster.writes ≠ [] ∧ ∀ write ∈ cluster.writes, write.complete ≠ tickFuture

namespace ClusterTidy

variable {cluster : WriteCluster} {now later : Nat} {used live : Set Serial} {serial : Serial}

theorem new : ClusterTidy .new now used live := by
  refine ⟨.inl rfl, List.Pairwise.nil, nofun, nofun, rfl, nofun, Nat.zero_le _, .inl rfl, ?_⟩
  exact fun closed => absurd rfl closed

section

variable (tidy : ClusterTidy cluster now used live)
include tidy

theorem weaken {moreUsed : Set Serial} (nextLive : Set Serial) (passes : now ≤ later)
    (more : used ⊆ moreUsed)
    (fewer : ∀ serial ∈ used, serial ∈ nextLive → serial ∈ live) :
    ClusterTidy cluster later moreUsed nextLive :=
  { tidy with
    started := tidy.started.imp_right passes.trans'
    used := fun write member => more (tidy.used write member)
    inFlight := fun write member inFlight =>
      tidy.inFlight write member (fewer _ (tidy.used write member) inFlight)
    maximum := tidy.maximum.trans passes }

theorem last (closed : cluster.complete ≠ tickFuture) :
    (∃ write ∈ cluster.writes, write.complete = cluster.complete) ∧
      ∀ write ∈ cluster.writes, write.complete ≤ cluster.complete := by
  obtain ⟨complete, nonempty, all⟩ := tidy.closed closed
  rw [complete]
  refine ⟨?_, fun write member => tidy.completed write member (all write member)⟩
  rcases tidy.attained with initial | attained
  · obtain ⟨write, member⟩ := exists_mem_of_ne_nil _ nonempty
    have bound := tidy.completed write member (all write member)
    rw [initial] at bound ⊢
    exact ⟨write, member, Nat.le_zero.mp bound⟩
  · exact attained

theorem startWrite (opened : cluster.complete = tickFuture) (fresh : serial ∉ used) {start : Nat}
    (passes : now ≤ start) (data : Byte) :
    ∃ next, cluster.startWrite serial start data = .ok next ∧
      next.writes = cluster.writes ++ [⟨serial, start, tickFuture, data⟩] ∧
      next.complete = tickFuture ∧
      ClusterTidy next start (insert serial used) (insert serial live) := by
  have absent : cluster.writes.any (·.serial == serial) = false := by
    rw [any_eq_false]
    intro write member same
    exact fresh (beq_iff_eq.mp same ▸ tidy.used write member)
  have inOrder : ¬ start < if cluster.start = tickFuture then start else cluster.start := by
    split
    · exact lt_irrefl start
    · rename_i begun
      exact not_lt.mpr ((tidy.started.resolve_left begun).trans passes)
  have opens : ¬ cluster.isComplete = true := by simp [WriteCluster.isComplete, opened]
  have step := WriteCluster.startWrite.eq_def cluster serial start data
  simp only [if_neg opens, if_neg inOrder, absent, opened, ne_eq, not_true_eq_false, false_and,
    if_false, Bool.false_eq_true] at step
  refine ⟨_, step, rfl, rfl, ?_, ?_, ?_, ?_, ?_, ?_, tidy.maximum.trans passes, ?_,
    fun closed => absurd rfl closed⟩
  · exact .inr (not_lt.mp inOrder)
  · refine pairwise_append.mpr ⟨tidy.distinct, pairwise_singleton _ _, ?_⟩
    intro write member
    rw [forall_mem_singleton]
    exact fun (same : write.serial = serial) => fresh (same ▸ tidy.used write member)
  · rw [forall_mem_append, forall_mem_singleton]
    exact ⟨fun write member => .inr (tidy.used write member), .inl rfl⟩
  · rw [forall_mem_append, forall_mem_singleton]
    refine ⟨fun write member inFlight => tidy.inFlight write member ?_, fun _ => rfl⟩
    exact inFlight.resolve_left fun same => fresh (same ▸ tidy.used write member)
  · rw [countP_append, tidy.count]
    simp
  · rw [forall_mem_append, forall_mem_singleton]
    exact ⟨tidy.completed, fun completes => absurd rfl completes⟩
  · exact tidy.attained.imp_right fun ⟨write, member, same⟩ =>
      ⟨write, mem_append_left _ member, same⟩

theorem fewerIncomplete_eq {write : Transaction} (member : write ∈ cluster.writes)
    (incomplete : write.complete = tickFuture) : cluster.fewerIncomplete =
      cluster.writes.countP fun other =>
        other.complete = tickFuture ∧ other.serial ≠ write.serial := by
  obtain ⟨before, after, split⟩ := append_of_mem member
  have perm : cluster.writes.Perm (write :: (before ++ after)) := split ▸ perm_middle
  have apart := (pairwise_cons.mp ((perm.pairwise_iff Ne.symm).mp tidy.distinct)).1
  have count := tidy.count
  rw [perm.countP_eq, countP_cons_of_pos (by simpa using incomplete)] at count
  rw [WriteCluster.fewerIncomplete, if_neg (by omega), perm.countP_eq, countP_cons_of_neg (by simp),
    count, Nat.add_sub_cancel]
  refine countP_congr fun other there => ?_
  simp [(apart other there).symm]

variable (opened : cluster.complete = tickFuture) (inFlight : serial ∈ live)
include inFlight

theorem serial_ne_of_attained (real : now < tickFuture) {write : Transaction}
    (member : write ∈ cluster.writes) (last : write.complete = cluster.completeMax) :
    write.serial ≠ serial := by
  rintro rfl
  have incomplete := tidy.inFlight write member inFlight
  have := tidy.maximum
  omega

include opened

theorem completeWrite {complete : Nat} (passes : now ≤ complete) (real : complete < tickFuture) :
    ∃ next, cluster.completeWrite serial complete = .ok next ∧
      next.writes = cluster.writes.map (WriteCluster.record serial complete) ∧
      ClusterTidy next complete used (live \ {serial}) := by
  have maximum := tidy.maximum
  have record_serial (write : Transaction) :
      (WriteCluster.record serial complete write).serial = write.serial := by
    rw [WriteCluster.record]
    split <;> rfl
  have record_incomplete (write : Transaction) :
      (WriteCluster.record serial complete write).complete = tickFuture ↔
        write.complete = tickFuture ∧ write.serial ≠ serial := by
    rw [WriteCluster.record]
    split <;> simp [*, real.ne]
  rw [WriteCluster.completeWrite]
  cases found : cluster.writes.find? (·.serial == serial) with
  | none =>
    refine ⟨cluster, rfl, ?_, tidy.weaken _ passes Set.Subset.rfl fun _ _ member => member.1⟩
    conv_lhs => rw [← map_id cluster.writes]
    refine map_congr_left fun write member => (if_neg fun same => ?_).symm
    exact find?_eq_none.mp found write member (beq_iff_eq.mpr same)
  | some write =>
    have member := mem_of_find?_eq_some found
    have same := find?_some found
    obtain rfl : write.serial = serial := beq_iff_eq.mp same
    have incomplete := tidy.inFlight write member inFlight
    have fewer := tidy.fewerIncomplete_eq member incomplete
    dsimp only
    rw [if_neg (not_not_intro incomplete)]
    refine ⟨_, rfl, rfl, tidy.started.imp_right passes.trans', ?_, ?_, ?_, ?_, ?_, ?_, ?_,
      fun closed => ?_⟩
    · refine pairwise_map.mpr (tidy.distinct.imp fun different => ?_)
      rwa [record_serial, record_serial]
    · refine forall_mem_map.mpr fun other there => ?_
      rw [record_serial]
      exact tidy.used other there
    · refine forall_mem_map.mpr fun other there live => ?_
      rw [record_serial] at live
      exact (record_incomplete other).mpr ⟨tidy.inFlight other there live.1, live.2⟩
    · rw [fewer, countP_map]
      exact countP_congr fun other _ => by simp [record_incomplete]
    · refine forall_mem_map.mpr fun other there completes => ?_
      have before := tidy.completed other there
      rw [ne_eq, record_incomplete] at completes
      rw [WriteCluster.record]
      split_ifs at completes ⊢ <;> simp_all <;> omega
    · dsimp only
      split <;> omega
    · by_cases less : cluster.completeMax < complete
      · refine .inr ⟨_, mem_map_of_mem member, ?_⟩
        rw [WriteCluster.record, if_pos rfl, if_pos less]
      · simp only [if_neg less]
        refine tidy.attained.imp_right fun ⟨other, there, last⟩ => ⟨_, mem_map_of_mem there, ?_⟩
        rwa [WriteCluster.record, if_neg (tidy.serial_ne_of_attained inFlight
          (passes.trans_lt real) there last)]
    · have none : cluster.fewerIncomplete = 0 := by
        by_contra some
        exact closed ((if_neg some).trans opened)
      refine ⟨if_pos none, ne_nil_of_mem (mem_map_of_mem member), ?_⟩
      rw [fewer, countP_eq_zero] at none
      refine forall_mem_map.mpr fun other there => ?_
      rw [ne_eq, record_incomplete]
      simpa using none other there

theorem abortWrite (real : now < tickFuture) :
    (cluster.abortWrite serial).writes = cluster.writes.filter (·.serial != serial) ∧
      ClusterTidy (cluster.abortWrite serial) now used (live \ {serial}) := by
  rw [WriteCluster.abortWrite]
  by_cases found : cluster.writes.any (·.serial == serial) = true
  · obtain ⟨write, member, same⟩ := any_eq_true.mp found
    obtain rfl : write.serial = serial := beq_iff_eq.mp same
    have fewer := tidy.fewerIncomplete_eq member (tidy.inFlight write member inFlight)
    have others {other : Transaction}
        (there : other ∈ cluster.writes.filter (·.serial != write.serial)) :=
      (mem_filter.mp there).1
    rw [if_pos found]
    refine ⟨rfl, tidy.started, tidy.distinct.filter _,
      fun other there => tidy.used other (others there),
      fun other there live => tidy.inFlight other (others there) live.1, ?_,
      fun other there => tidy.completed other (others there), tidy.maximum, ?_, fun closed => ?_⟩
    · rw [fewer, countP_filter]
      exact countP_congr fun other _ => by simp
    · refine tidy.attained.imp_right fun ⟨other, there, last⟩ =>
        ⟨other, mem_filter.mpr ⟨there, ?_⟩, last⟩
      exact bne_iff_ne.mpr (tidy.serial_ne_of_attained inFlight real there last)
    · have none : cluster.fewerIncomplete = 0 ∧
          cluster.writes.filter (·.serial != write.serial) ≠ [] := by
        by_contra some
        exact closed ((if_neg some).trans opened)
      refine ⟨if_pos none, none.2, fun other there => ?_⟩
      have zero := none.1
      rw [fewer, countP_eq_zero] at zero
      obtain ⟨member, different⟩ := mem_filter.mp there
      simpa [bne_iff_ne.mp different] using zero other member
  · rw [if_neg found]
    refine ⟨(filter_eq_self.mpr fun write member => ?_).symm,
      tidy.weaken _ le_rfl Set.Subset.rfl fun _ _ member => member.1⟩
    rw [any_eq_true, not_exists] at found
    exact bne_iff_ne.mpr fun same => found write ⟨member, beq_iff_eq.mpr same⟩

end

end ClusterTidy

/-! ### Trackers -/

namespace ByteTracker

/-- What a tracker keeps. -/
structure Tidy (tracker : ByteTracker) (now : Nat) (used live : Set Serial) : Prop where
  readsUsed : ∀ entry ∈ tracker.outstandingReads.entries, entry.1 ∈ used
  readsStarted : ∀ entry ∈ tracker.outstandingReads.entries, entry.2.start ≤ now
  readsOrdered : tracker.outstandingReads.entries.Pairwise fun first second =>
    first.2.start ≤ second.2.start
  nonempty : tracker.readObservations ≠ []
  observed : ∀ observation ∈ tracker.readObservations,
    observation.start ≤ observation.complete ∧ observation.complete ≤ now
  ordered : tracker.readObservations.Pairwise fun first second => first.complete ≤ second.complete
  first : ∀ observation ∈ tracker.readObservations.head?, observation.complete = tickInitial ∨
    observation.complete < now ∧
      ∀ entry ∈ tracker.outstandingReads.entries, observation.complete < entry.2.start
  clusters : ∀ cluster ∈ tracker.writeClusters, ClusterTidy cluster now used live
  closed : ∀ cluster ∈ tracker.writeClusters.dropLast, cluster.complete ≠ tickFuture

variable {tracker : ByteTracker} {now later : Nat} {used live : Set Serial} {serial : Serial}
  {start : Nat} {data : Byte}

theorem tidy_new : ByteTracker.new.Tidy now used live := by
  refine ⟨nofun, nofun, List.Pairwise.nil, cons_ne_nil _ _, ?_, pairwise_singleton _ _, ?_,
    nofun, nofun⟩
  · intro observation member
    rw [mem_singleton.mp member]
    exact ⟨le_rfl, Nat.zero_le now⟩
  · intro observation head
    cases head
    exact .inl rfl

theorem Tidy.weaken {moreUsed : Set Serial} (tidy : tracker.Tidy now used live)
    (nextLive : Set Serial) (passes : now ≤ later) (more : used ⊆ moreUsed)
    (fewer : ∀ serial ∈ used, serial ∈ nextLive → serial ∈ live) :
    tracker.Tidy later moreUsed nextLive :=
  { tidy with
    readsUsed := fun entry member => more (tidy.readsUsed entry member)
    readsStarted := fun entry member => (tidy.readsStarted entry member).trans passes
    observed := fun observation member =>
      (tidy.observed observation member).imp_right passes.trans'
    first := fun observation head => (tidy.first observation head).imp_right
      fun ⟨before, starts⟩ => ⟨before.trans_le passes, starts⟩
    clusters := fun cluster member =>
      (tidy.clusters cluster member).weaken nextLive passes more fewer }

theorem startRead_entries (start : Nat)
    (greatest : ∀ entry ∈ tracker.outstandingReads.entries, entry.1 < serial) :
    (tracker.startRead serial start).outstandingReads.entries =
      tracker.outstandingReads.entries ++ [(serial, ⟨serial, start, tickFuture, 0⟩)] :=
  OrderedMap.insertEntry_greatest greatest

theorem Tidy.startRead (tidy : tracker.Tidy now used live) (passes : now ≤ start)
    (greatest : ∀ entry ∈ tracker.outstandingReads.entries, entry.1 < serial) :
    (tracker.startRead serial start).Tidy start (insert serial used) live := by
  have waiting := tidy.weaken live passes (Set.subset_insert serial used) fun _ _ member => member
  have entries := startRead_entries start greatest
  refine { waiting with readsUsed := ?_, readsStarted := ?_, readsOrdered := ?_, first := ?_ }
  · rw [entries, forall_mem_append, forall_mem_singleton]
    exact ⟨waiting.readsUsed, Set.mem_insert serial used⟩
  · rw [entries, forall_mem_append, forall_mem_singleton]
    exact ⟨waiting.readsStarted, le_rfl⟩
  · rw [entries]
    refine pairwise_append.mpr ⟨waiting.readsOrdered, pairwise_singleton _ _, ?_⟩
    intro entry member
    rw [forall_mem_singleton]
    exact waiting.readsStarted entry member
  · intro observation head
    refine (waiting.first observation head).imp_right fun ⟨before, starts⟩ => ⟨before, ?_⟩
    rw [entries, forall_mem_append, forall_mem_singleton]
    exact ⟨starts, before⟩

theorem pruneTick_le (started : ∀ entry ∈ tracker.outstandingReads.entries, entry.2.start ≤ now)
    (ordered : tracker.outstandingReads.entries.Pairwise fun first second =>
      first.2.start ≤ second.2.start) :
    tracker.pruneTick now ≤ now ∧
      ∀ entry ∈ tracker.outstandingReads.entries, tracker.pruneTick now ≤ entry.2.start := by
  rw [pruneTick]
  split
  · rename_i none
    rw [none]
    exact ⟨le_rfl, nofun⟩
  · rename_i first rest some
    rw [some] at started ordered ⊢
    refine ⟨started first mem_cons_self, fun entry member => ?_⟩
    rcases mem_cons.mp member with rfl | later
    · exact le_rfl
    · exact (pairwise_cons.mp ordered).1 entry later

/-- What is pruned is older than something that completed before all outstanding reads began. -/
structure Pruned (tracker next : ByteTracker) (before : Nat) : Prop where
  reads : next.outstandingReads = tracker.outstandingReads
  observations : ∃ older first rest, next.readObservations = first :: rest ∧
    tracker.readObservations = older ++ first :: rest ∧ (older = [] ∨ first.complete < before)
  clusters : ∃ older, tracker.writeClusters = older ++ next.writeClusters ∧
    (older = [] ∨ ∃ first ∈ next.writeClusters, first.complete < before)

theorem pruneTransactions_spec (nonempty : tracker.readObservations ≠ []) (curTick : Nat) :
    ∃ next, tracker.pruneTransactions curTick = .ok next ∧
      tracker.Pruned next (tracker.pruneTick curTick) := by
  obtain ⟨older, first, rest, found, split, _, ends⟩ :=
    lastCompletedTransaction_spec Transaction.complete nonempty
      (tracker.pruneTick curTick)
  have observations : ∃ older first' rest', first :: rest = first' :: rest' ∧
      tracker.readObservations = older ++ first' :: rest' ∧
      (older = [] ∨ first'.complete < tracker.pruneTick curTick) :=
    ⟨older, first, rest, rfl, split, ends⟩
  by_cases none : tracker.writeClusters = []
  · refine ⟨{ tracker with readObservations := first :: rest }, ?_, rfl, observations, [], rfl,
      .inl rfl⟩
    rw [pruneTransactions, found, ok_bind]
    exact if_pos none
  · obtain ⟨olderClusters, cluster, clusters, foundCluster, splitClusters, _, endsClusters⟩ :=
      lastCompletedTransaction_spec WriteCluster.complete none
        (tracker.pruneTick curTick)
    refine ⟨{ tracker with
      readObservations := first :: rest, writeClusters := cluster :: clusters },
      ?_, rfl, observations, olderClusters, splitClusters,
      endsClusters.imp_right fun early => ⟨cluster, mem_cons_self, early⟩⟩
    rw [pruneTransactions, found, ok_bind]
    dsimp only
    rw [if_neg none, foundCluster]
    rfl

theorem Tidy.pruned {next : ByteTracker} (tidy : tracker.Tidy now used live)
    (pruned : tracker.Pruned next (tracker.pruneTick now)) : next.Tidy now used live := by
  obtain ⟨below, starts⟩ := pruneTick_le tidy.readsStarted tidy.readsOrdered
  obtain ⟨older, first, _, nextObservations, observations, ends⟩ := pruned.observations
  obtain ⟨olderClusters, clusters, _⟩ := pruned.clusters
  have suffix : next.readObservations.Sublist tracker.readObservations := by
    rw [nextObservations, observations]
    exact sublist_append_right older _
  have kept : next.writeClusters.Sublist tracker.writeClusters := by
    rw [clusters]
    exact sublist_append_right olderClusters _
  refine ⟨pruned.reads ▸ tidy.readsUsed, pruned.reads ▸ tidy.readsStarted,
    pruned.reads ▸ tidy.readsOrdered, ?_, fun observation member =>
      tidy.observed observation (suffix.mem member), tidy.ordered.sublist suffix, ?_,
    fun cluster member => tidy.clusters cluster (kept.mem member), fun cluster member => ?_⟩
  · rw [nextObservations]
    exact cons_ne_nil _ _
  · intro observation head
    rw [nextObservations] at head
    cases head
    rw [pruned.reads]
    rcases ends with rfl | early
    · exact tidy.first first (by rw [observations]; rfl)
    · exact .inr ⟨early.trans_le below, fun entry member => early.trans_le (starts entry member)⟩
  · refine tidy.closed cluster ?_
    rw [clusters]
    by_cases empty : next.writeClusters = []
    · rw [empty] at member
      cases member
    · rw [dropLast_append_of_ne_nil empty]
      exact mem_append_right _ member

/-! ### Writes of a tracker -/

section

variable (tidy : tracker.Tidy now used live)
include tidy

theorem Tidy.getIncompleteWriteCluster :
    ∃ older cluster, tracker.getIncompleteWriteCluster = (older, cluster) ∧
      cluster.complete = tickFuture ∧ ClusterTidy cluster now used live ∧
      (∀ other ∈ older, other ∈ tracker.writeClusters ∧ other.complete ≠ tickFuture) ∧
      (tracker.writeClusters = older ++ [cluster] ∨
        tracker.writeClusters = older ∧ cluster = .new) := by
  rw [ByteTracker.getIncompleteWriteCluster]
  cases ends : tracker.writeClusters.getLast? with
  | none =>
    rw [getLast?_eq_none_iff] at ends
    exact ⟨[], .new, rfl, rfl, .new, nofun, .inr ⟨ends, rfl⟩⟩
  | some last =>
    have split := dropLast_append_getLast? last ends
    have member : last ∈ tracker.writeClusters := mem_of_getLast? ends
    by_cases complete : last.complete = tickFuture
    · refine ⟨tracker.writeClusters.dropLast, last, by simp [WriteCluster.isComplete, complete],
        complete, tidy.clusters last member, fun other there => ?_, .inl split.symm⟩
      exact ⟨(dropLast_sublist _).mem there, tidy.closed other there⟩
    · refine ⟨tracker.writeClusters, .new, by simp [WriteCluster.isComplete, complete], rfl, .new,
        fun other there => ⟨there, ?_⟩, .inr ⟨rfl, rfl⟩⟩
      rw [← split, mem_append, mem_singleton] at there
      rcases there with earlier | rfl
      · exact tidy.closed other earlier
      · exact complete

theorem Tidy.withCluster {older : List WriteCluster} {cluster : WriteCluster}
    (closed : ∀ other ∈ older, other ∈ tracker.writeClusters ∧ other.complete ≠ tickFuture)
    (last : ClusterTidy cluster now used live) :
    (tracker.withCluster older cluster).Tidy now used live := by
  refine { tidy with clusters := ?_, closed := ?_ }
  · rw [ByteTracker.withCluster, forall_mem_append, forall_mem_singleton]
    exact ⟨fun other there => tidy.clusters other (closed other there).1, last⟩
  · rw [ByteTracker.withCluster, dropLast_concat]
    exact fun other there => (closed other there).2

theorem Tidy.startWrite (fresh : serial ∉ used) (passes : now ≤ start) (data : Byte) :
    ∃ older cluster next, tracker.getIncompleteWriteCluster = (older, cluster) ∧
      tracker.startWrite serial start data = .ok (tracker.withCluster older next) ∧
      next.writes = cluster.writes ++ [⟨serial, start, tickFuture, data⟩] ∧
      (tracker.withCluster older next).Tidy start (insert serial used) (insert serial live) := by
  obtain ⟨older, cluster, found, opened, clusterTidy, closed, _⟩ := tidy.getIncompleteWriteCluster
  obtain ⟨next, done, writes, _, nextTidy⟩ := clusterTidy.startWrite opened fresh passes data
  have waiting := tidy.weaken (insert serial live) passes (Set.subset_insert serial used)
    fun other member there => there.resolve_left fun same => fresh (same ▸ member)
  refine ⟨older, cluster, next, found, ?_, writes, waiting.withCluster closed nextTidy⟩
  rw [ByteTracker.startWrite, found]
  dsimp only
  rw [done]
  rfl

theorem Tidy.completeWrite (inFlight : serial ∈ live)
    {complete : Nat} (passes : now ≤ complete) (real : complete < tickFuture) :
    ∃ older cluster written next, tracker.getIncompleteWriteCluster = (older, cluster) ∧
      tracker.completeWrite complete serial complete = .ok next ∧
      written.writes = cluster.writes.map (WriteCluster.record serial complete) ∧
      (tracker.withCluster older written).Tidy complete used (live \ {serial}) ∧
      (tracker.withCluster older written).Pruned next
        ((tracker.withCluster older written).pruneTick complete) ∧
      next.Tidy complete used (live \ {serial}) := by
  obtain ⟨older, cluster, found, opened, clusterTidy, closed, _⟩ := tidy.getIncompleteWriteCluster
  obtain ⟨written, done, writes, writtenTidy⟩ :=
    clusterTidy.completeWrite opened inFlight passes real
  have waiting := (tidy.weaken (live \ {serial}) passes Set.Subset.rfl
    fun _ _ member => member.1).withCluster closed writtenTidy
  obtain ⟨next, pruned, spec⟩ := pruneTransactions_spec waiting.nonempty complete
  refine ⟨older, cluster, written, next, found, ?_, writes, waiting, spec, waiting.pruned spec⟩
  rw [ByteTracker.completeWrite, found]
  dsimp only
  rw [done, ok_bind, pruned]

theorem Tidy.abortWrite (inFlight : serial ∈ live) (real : now < tickFuture) :
    ∃ older cluster, tracker.getIncompleteWriteCluster = (older, cluster) ∧
      tracker.abortWrite serial = tracker.withCluster older (cluster.abortWrite serial) ∧
      (cluster.abortWrite serial).writes = cluster.writes.filter (·.serial != serial) ∧
      (tracker.abortWrite serial).Tidy now used (live \ {serial}) := by
  obtain ⟨older, cluster, found, opened, clusterTidy, closed, _⟩ := tidy.getIncompleteWriteCluster
  obtain ⟨writes, abortedTidy⟩ := clusterTidy.abortWrite opened inFlight real
  have waiting := (tidy.weaken (live \ {serial}) le_rfl Set.Subset.rfl
    fun _ _ member => member.1).withCluster closed abortedTidy
  have aborted : tracker.abortWrite serial =
      tracker.withCluster older (cluster.abortWrite serial) := by
    rw [ByteTracker.abortWrite, found]
  exact ⟨older, cluster, found, aborted, writes, aborted ▸ waiting⟩

end

end ByteTracker

end Gem5.Mem
