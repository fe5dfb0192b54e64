/-
Rafka/CompactedTable.lean

The compacted log as a table (`LogCompactionManager` in
`crates/broker/src/compaction.rs`).

A reader that replays the log of a partition keeps the latest value of every key.  What it
gets should not depend on the compactions that have been done: they are there to save
space.  Under KeepLatest it does not (`table_as_appended`), whatever offsets are appended
and whatever the clock does.  Under the strategies with a window a value also goes when it
has expired, and where the offsets increase and the clock does not step back, nothing else
changes (`table_without_expired`).

The bytes add up as well: what has been appended to a partition is what it holds and what
its compactions have reported (`bytes_conserved`), which is what `get_stats` and
`needs_compaction` go by.
-/
import Rafka.Reclaim

namespace Rafka

namespace LogCompactionManager

variable {segments : List LogSegment} {entries : List CompactedEntry} {e x : CompactedEntry}
variable {k : String} {q : Int32}

/-! ### The counts -/

/-- `LogCompactionManager::get_stats`: the segments of the partition, their entries and
their bytes. -/
def getStats (m : LogCompactionManager) (partitionId : Int32) : Option (Nat × Nat × Nat) :=
  (m.segments.lookup partitionId).map fun segs =>
    let numSegments := segs.length
    let totalEntries := (segs.map fun s => s.entries.length).sum
    let totalSize := sizeOf segs
    (numSegments, totalEntries, totalSize)

/-- The `min_compaction_size` that `new` sets. -/
def minCompactionSize : Nat := 1024 * 1024

/-- `LogCompactionManager::needs_compaction`. -/
def needsCompaction (m : LogCompactionManager) (partitionId : Int32) : Bool :=
  match m.segments.lookup partitionId with
  | some segs => minCompactionSize ≤ sizeOf segs
  | none => false

/-! ### What has been appended, and what has been dropped -/

/-- The entry that a call appends to the partition, if it does. -/
def entryOf (q : Int32) : Int32 × CompactionOp → Option CompactedEntry
  | (partitionId, .append key value offset now) =>
      if partitionId = q then some ⟨key, value, offset, now⟩ else none
  | (_, .compactPartition ..) => none

/-- The entries that have been appended to the partition. -/
def appended (q : Int32) (calls : List (Int32 × CompactionOp)) : List CompactedEntry :=
  calls.filterMap (entryOf q)

/-- The time before which a call drops entries of the partition, if it does. -/
def cutoffOf (strategy : CompactionStrategy) (q : Int32) :
    Int32 × CompactionOp → Option SystemTime
  | (_, .append ..) => none
  | (partitionId, .compactPartition _ now) =>
      if partitionId = q then (new strategy).cutoffTime now else none

/-- An entry that no compaction of its partition has dropped for its age. -/
def Unexpired (strategy : CompactionStrategy) (q : Int32) (calls : List (Int32 × CompactionOp))
    (e : CompactedEntry) : Prop :=
  ∀ cutoff ∈ calls.filterMap (cutoffOf strategy q), cutoff.nanos ≤ e.timestamp.nanos

/-- The clock as a call reads it. -/
def CompactionOp.now : CompactionOp → SystemTime
  | .append _ _ _ now => now
  | .compactPartition _ now => now

/-- The bytes that a call reports as reclaimed from the partition. -/
def reclaimedBy (m : LogCompactionManager) (q : Int32) : Int32 × CompactionOp → Nat
  | (_, .append ..) => 0
  | (partitionId, .compactPartition order now) =>
      match (m.compactPartition partitionId order now).1 with
      | some (.ok reclaimed) => if partitionId = q then reclaimed else 0
      | _ => 0

/-- The bytes that the calls of a run report as reclaimed from the partition. -/
def reclaimed (q : Int32) : LogCompactionManager → List (Int32 × CompactionOp) → Nat
  | _, [] => 0
  | m, c :: calls => m.reclaimedBy q c + reclaimed q (m.call c) calls

/-! ### One more entry -/

theorem lookup_foldl_keepLatestTurn_iff :
    (entries.foldl keepLatestTurn ∅).lookup k = some e ↔ IsLatest entries k e := by
  have hlookup : (latestEntries [⟨0, 0, entries, 0⟩]).lookup k = some e ↔
      IsLatest (log [⟨0, 0, entries, 0⟩]) k e := lookup_latestEntries_iff
  rwa [latestEntries_eq, log_singleton] at hlookup

/-- An entry that is added becomes the latest of its key. -/
def Supersedes (x : CompactedEntry) (entries : List CompactedEntry) (k : String) : Prop :=
  k = x.key ∧ ∀ latest, IsLatest entries k latest → latest.offset < x.offset

theorem isLatest_concat_iff :
    IsLatest (entries ++ [x]) k e ↔
      (Supersedes x entries k ∧ x = e) ∨ (¬ Supersedes x entries k ∧ IsLatest entries k e) := by
  simp only [Supersedes, ← lookup_foldl_keepLatestTurn_iff]
  rw [List.foldl_concat, lookup_keepLatestTurn]
  split
  · rename_i hnew
    rw [Option.some_inj]
    exact ⟨fun h => .inl ⟨hnew, h⟩, fun h => h.elim And.right fun h => absurd hnew h.1⟩
  · rename_i hold
    exact ⟨fun h => .inr ⟨hold, h⟩, fun h => h.elim (fun h => absurd h.1 hold) And.right⟩

/-- The latest entries of a log that is extended depend on the latest before. -/
theorem isLatest_concat_congr {entries' : List CompactedEntry}
    (h : ∀ k e, IsLatest entries k e ↔ IsLatest entries' k e) :
    IsLatest (entries ++ [x]) k e ↔ IsLatest (entries' ++ [x]) k e := by
  simp only [isLatest_concat_iff, Supersedes, h]

/-- An entry with the greatest offset is the latest of its key. -/
theorem isLatest_concat_of_lt (h : ∀ e ∈ entries, e.offset < x.offset) :
    IsLatest (entries ++ [x]) k e ↔ (k = x.key ∧ x = e) ∨ (k ≠ x.key ∧ IsLatest entries k e) := by
  have hnew : Supersedes x entries k ↔ k = x.key :=
    and_iff_left fun latest hlatest => h latest hlatest.mem.1
  rw [isLatest_concat_iff, hnew]

theorem IsLatest.offset_le {e' : CompactedEntry} (h : IsLatest entries k e) (he' : e' ∈ entries)
    (hkey : e'.key = k) : e'.offset ≤ e.offset := by
  obtain ⟨i, -, -, hgreatest⟩ := h
  obtain ⟨j, hj⟩ := List.mem_iff_getElem?.mp he'
  exact (hgreatest j e' hj hkey).1

/-! ### One call -/

theorem room_call {m : LogCompactionManager} (h : 0 < m.maxSegmentSize)
    (c : Int32 × CompactionOp) : 0 < (m.call c).maxSegmentSize := by
  obtain ⟨partitionId, op⟩ := c
  cases op with
  | append key value offset now => exact h
  | compactPartition order now =>
      exact (compactPartition_cases m partitionId order now).1 ▸ h

theorem strategy_call (m : LogCompactionManager) (c : Int32 × CompactionOp) :
    (m.call c).strategy = m.strategy := by
  obtain ⟨partitionId, op⟩ := c
  cases op with
  | append key value offset now => rfl
  | compactPartition order now =>
      show (m.compactPartition partitionId order now).2.strategy = m.strategy
      unfold compactPartition
      split
      · rfl
      · split
        · rfl
        · rfl

/-- An append adds its entry to its own partition. -/
theorem log_append_call {m : LogCompactionManager} (h : 0 < m.maxSegmentSize)
    (partitionId : Int32) (key : String) (value : List UInt8) (offset : Int64)
    (now : SystemTime) :
    log ((m.call (partitionId, .append key value offset now)).segmentsOf q) =
      log (m.segmentsOf q) ++ (entryOf q (partitionId, .append key value offset now)).toList := by
  by_cases hq : partitionId = q
  · subst hq
    show log ((m.append partitionId key value offset now).segmentsOf partitionId) = _
    rw [segmentsOf_append, log_appendEntry _ (.inr h)]
    simp [entryOf]
  · show log (segmentsOf { m with segments := m.segments.insert partitionId _ } q) = _
    rw [segmentsOf_insert, if_neg (Ne.symm hq)]
    simp [entryOf, hq]

/-- Collecting the latest entries changes none of them: what a compaction changes is what
the window does. -/
theorem isLatest_compactPartition_iff {m : LogCompactionManager} {partitionId : Int32}
    {order : List String} {now : SystemTime}
    (h : m.Iterates (partitionId, .compactPartition order now)) :
    IsLatest (log ((m.compactPartition partitionId order now).2.segmentsOf partitionId)) k e ↔
      IsLatest (log (m.windowed partitionId now)) k e := by
  rcases (compactPartition_cases m partitionId order now).2 with ⟨hcollected, heq⟩ | ⟨-, heq⟩
  · rw [heq, log_compactKeepLatest]
    exact isLatest_survivors_iff (h _ hcollected)
  · rw [heq]

/-- A window that drops the latest entry of a key last drops nothing else of the table. -/
theorem isLatest_windowed_iff {m : LogCompactionManager} {partitionId : Int32} {now : SystemTime}
    (h : ∀ cutoff ∈ m.cutoffTime now, LastToExpire cutoff (log (m.segmentsOf partitionId))) :
    IsLatest (log (m.windowed partitionId now)) k e ↔
      IsLatest (log (m.segmentsOf partitionId)) k e ∧
        ∀ cutoff ∈ m.cutoffTime now, cutoff.nanos ≤ e.timestamp.nanos := by
  have hnone : NeverRevives (log (m.segmentsOf partitionId))
      ((log (m.segmentsOf partitionId)).filter fun e =>
        decide (∀ cutoff ∈ m.cutoffTime now, cutoff.nanos ≤ e.timestamp.nanos)) ↔ _ :=
    neverRevives_filter_iff
  rw [log_windowed]
  constructor
  · intro hlatest
    refine ⟨neverRevives_iff.mp (hnone.mpr ?_) k e hlatest, ?_⟩
    · intro k latest hlatest hgone e he hkey
      cases hcutoff : m.cutoffTime now with
      | none => simp [hcutoff] at hgone
      | some cutoff =>
          rw [hcutoff] at hgone
          have hexpired := h cutoff hcutoff k latest hlatest (by simpa using hgone) e he hkey
          simpa using hexpired
    · simpa using (List.mem_filter.mp hlatest.mem.1).2
  · rintro ⟨hlatest, hstays⟩
    exact hlatest.filter (by simpa using hstays)

/-- A compaction takes the expired entries out of the table of its own partition. -/
theorem isLatest_compact_call {m : LogCompactionManager} {partitionId : Int32}
    {order : List String} {now : SystemTime}
    (h : m.Iterates (partitionId, .compactPartition order now))
    (hexpire : ∀ cutoff ∈ cutoffOf m.strategy q (partitionId, .compactPartition order now),
      LastToExpire cutoff (log (m.segmentsOf q))) :
    IsLatest (log ((m.call (partitionId, .compactPartition order now)).segmentsOf q)) k e ↔
      IsLatest (log (m.segmentsOf q)) k e ∧
        ∀ cutoff ∈ cutoffOf m.strategy q (partitionId, .compactPartition order now),
          cutoff.nanos ≤ e.timestamp.nanos := by
  show IsLatest (log ((m.compactPartition partitionId order now).2.segmentsOf q)) k e ↔ _
  by_cases hq : partitionId = q
  · subst hq
    have hcutoff : cutoffOf m.strategy partitionId (partitionId, .compactPartition order now) =
        m.cutoffTime now := if_pos rfl
    rw [hcutoff] at hexpire ⊢
    exact (isLatest_compactPartition_iff h).trans (isLatest_windowed_iff hexpire)
  · rw [segmentsOf_compactPartition (Ne.symm hq)]
    simp [cutoffOf, hq]

/-! ### Runs -/

theorem appended_concat (calls : List (Int32 × CompactionOp)) (c : Int32 × CompactionOp) :
    appended q (calls ++ [c]) = appended q calls ++ (entryOf q c).toList := by
  rw [appended, List.filterMap_append, List.filterMap_cons, List.filterMap_nil, appended]
  cases entryOf q c with
  | none => rfl
  | some x => rfl

theorem unexpired_concat {strategy : CompactionStrategy} {calls : List (Int32 × CompactionOp)}
    {c : Int32 × CompactionOp} :
    Unexpired strategy q (calls ++ [c]) e ↔
      Unexpired strategy q calls e ∧
        ∀ cutoff ∈ cutoffOf strategy q c, cutoff.nanos ≤ e.timestamp.nanos := by
  unfold Unexpired
  rw [List.filterMap_append, List.forall_mem_append, List.filterMap_cons, List.filterMap_nil]
  cases cutoffOf strategy q c with
  | none => simp
  | some cutoff => simp

/-- What a run leaves of the settings of `new`. -/
theorem settings_run (strategy : CompactionStrategy) (calls : List (Int32 × CompactionOp)) :
    0 < (calls.foldl call (new strategy)).maxSegmentSize ∧
      (calls.foldl call (new strategy)).strategy = strategy := by
  induction calls using List.reverseRecOn with
  | nil => exact ⟨show 0 < 1024 * 1024 * 100 by decide, rfl⟩
  | append_singleton calls c ih =>
      rw [List.foldl_concat, strategy_call]
      exact ⟨room_call ih.1 c, ih.2⟩

/-- Nothing is in a partition that has not been appended to it. -/
theorem mem_appended {strategy : CompactionStrategy} {calls : List (Int32 × CompactionOp)}
    (hcalls : Along call Iterates (new strategy) calls)
    (he : e ∈ log ((calls.foldl call (new strategy)).segmentsOf q)) : e ∈ appended q calls := by
  induction calls using List.reverseRecOn generalizing e with
  | nil => exact absurd he List.not_mem_nil
  | append_singleton calls c ih =>
      obtain ⟨hbefore, hc, -⟩ := along_append.mp hcalls
      rw [List.foldl_concat] at he
      rw [appended_concat, List.mem_append]
      obtain ⟨partitionId, op⟩ := c
      cases op with
      | append key value offset now =>
          rw [log_append_call (settings_run strategy calls).1, List.mem_append] at he
          exact he.imp_left (ih hbefore)
      | compactPartition order now =>
          refine .inl (ih hbefore ?_)
          by_cases hq : partitionId = q
          · subst hq
            obtain ⟨removed, hremoved⟩ := exists_removed _ partitionId order now hc
            exact hremoved.subset (List.mem_append_left removed he)
          · rwa [← segmentsOf_compactPartition (Ne.symm hq) order now]

/-- **Compaction is invisible under KeepLatest.**  In every run of appends and compactions,
on any partitions, with any offsets, any clock and any iteration orders, every key has in
the log the latest entry that has been appended under it; and a compaction leaves exactly
these entries. -/
theorem table_as_appended (calls : List (Int32 × CompactionOp))
    (hcalls : Along call Iterates (new .keepLatest) calls) (q : Int32) :
    (∀ k e, IsLatest (log ((calls.foldl call (new .keepLatest)).segmentsOf q)) k e ↔
      IsLatest (appended q calls) k e) ∧
    ∀ order now, (calls.foldl call (new .keepLatest)).Iterates (q, .compactPartition order now) →
      let after := log (((calls.foldl call (new .keepLatest)).call
        (q, .compactPartition order now)).segmentsOf q)
      (after.map fun e => e.key).Nodup ∧ ∀ e, e ∈ after ↔ IsLatest (appended q calls) e.key e := by
  have hlatest : ∀ k e, IsLatest (log ((calls.foldl call (new .keepLatest)).segmentsOf q)) k e ↔
      IsLatest (appended q calls) k e := by
    induction calls using List.reverseRecOn with
    | nil => exact fun k e => Iff.rfl
    | append_singleton calls c ih =>
        obtain ⟨hbefore, hc, -⟩ := along_append.mp hcalls
        intro k e
        rw [List.foldl_concat, appended_concat]
        obtain ⟨partitionId, op⟩ := c
        cases op with
        | append key value offset now =>
            rw [log_append_call (settings_run _ calls).1]
            cases entryOf q (partitionId, .append key value offset now) with
            | none => simpa using ih hbefore k e
            | some x => exact isLatest_concat_congr (ih hbefore)
        | compactPartition order now =>
            have hstrategy := (settings_run .keepLatest calls).2
            have hcutoff : cutoffOf .keepLatest q (partitionId, .compactPartition order now) =
                none := ite_self none
            rw [isLatest_compact_call hc (by simp [hstrategy, hcutoff]), hstrategy, hcutoff,
              entryOf, Option.toList_none, List.append_nil, ih hbefore]
            simp
  refine ⟨hlatest, fun order now hiterates => ?_⟩
  have hstrategy := (settings_run .keepLatest calls).2
  simp only [← hlatest]
  generalize calls.foldl call (new .keepLatest) = m at hiterates hstrategy
  show ((log ((m.compactPartition q order now).2.segmentsOf q)).map fun e => e.key).Nodup ∧
    ∀ e, e ∈ log ((m.compactPartition q order now).2.segmentsOf q) ↔ _
  have hkept : m.windowed q now = m.segmentsOf q := by
    simp [windowed, cutoffTime, hstrategy, CompactionStrategy.window]
  rcases (compactPartition_cases m q order now).2 with ⟨hcollected, heq⟩ | ⟨hcollected, heq⟩
  · rw [heq, log_compactKeepLatest, hkept]
    have horder := hiterates _ hcollected
    rw [hkept] at horder
    exact ⟨nodup_key_survivors horder, fun e => mem_survivors horder⟩
  · -- there is no such partition
    have hnone : m.segmentsOf q = [] := by
      cases hlookup : m.segments.lookup q with
      | none => simp [segmentsOf, hlookup]
      | some segs => simp [collected, hlookup, hstrategy] at hcollected
    rw [heq, hkept, hnone]
    refine ⟨List.nodup_nil, fun e => iff_of_false List.not_mem_nil fun h => ?_⟩
    exact List.not_mem_nil h.mem.1


/-- A value that arrives after a compaction with an offset before the one kept. -/
def lateValue : List (Int32 × CompactionOp) :=
  [(0, .append "a" [1] 0 .unixEpoch), (0, .append "a" [2] 5 .unixEpoch),
    (0, .compactPartition ["a"] hundredSecs), (0, .append "a" [3] 3 .unixEpoch)]

theorem table_as_appended_lateValue :
    Along call Iterates (new .keepLatest) lateValue ∧
    (∀ k e, IsLatest (log ((lateValue.foldl call (new .keepLatest)).segmentsOf 0)) k e ↔
      IsLatest (appended 0 lateValue) k e) ∧
    ∀ order now, (lateValue.foldl call (new .keepLatest)).Iterates
        (0, .compactPartition order now) →
      let after := log (((lateValue.foldl call (new .keepLatest)).call
        (0, .compactPartition order now)).segmentsOf 0)
      (after.map fun e => e.key).Nodup ∧
        ∀ e, e ∈ after ↔ IsLatest (appended 0 lateValue) e.key e := by
  have hcalls : Along call Iterates (new .keepLatest) lateValue := by
    decide +kernel
  exact ⟨hcalls, table_as_appended lateValue hcalls 0⟩

/-- The calls read a clock that does not step back. -/
def ClockForward (calls : List (Int32 × CompactionOp)) : Prop :=
  calls.Pairwise fun c c' => c.2.now.nanos ≤ c'.2.now.nanos

theorem timestamp_of_entryOf {c : Int32 × CompactionOp} (h : entryOf q c = some e) :
    e.timestamp = c.2.now := by
  obtain ⟨partitionId, op⟩ := c
  cases op with
  | append key value offset now =>
      obtain ⟨-, heq⟩ := Option.ite_none_right_eq_some.mp h
      cases heq
      rfl
  | compactPartition order now => cases h

theorem cutoffOf_le {strategy : CompactionStrategy} {c : Int32 × CompactionOp}
    {cutoff : SystemTime} (h : cutoffOf strategy q c = some cutoff) :
    cutoff.nanos ≤ c.2.now.nanos := by
  obtain ⟨partitionId, op⟩ := c
  cases op with
  | append key value offset now => cases h
  | compactPartition order now =>
      obtain ⟨-, hcutoff⟩ := Option.ite_none_right_eq_some.mp h
      obtain ⟨window, -, hsub⟩ := Option.bind_eq_some_iff.mp hcutoff
      unfold SystemTime.sub at hsub
      split at hsub
      · cases hsub
        show now.nanos - (window : Int) ≤ now.nanos
        omega
      · cases hsub

/-- What has a later offset has been appended at a later time. -/
theorem timestamp_le_of_offset_le {calls : List (Int32 × CompactionOp)} {e' : CompactedEntry}
    (hclock : ClockForward calls)
    (hoffsets : (appended q calls).Pairwise fun e e' => e.offset < e'.offset)
    (he : e ∈ appended q calls) (he' : e' ∈ appended q calls) (hle : e.offset ≤ e'.offset) :
    e.timestamp.nanos ≤ e'.timestamp.nanos := by
  have htimes : (appended q calls).Pairwise fun e e' => e.timestamp.nanos ≤ e'.timestamp.nanos :=
    hclock.filterMap _ fun c c' hle x hx x' hx' => by
      rwa [timestamp_of_entryOf hx, timestamp_of_entryOf hx']
  refine List.Pairwise.forall_of_forall_of_flip
    (R := fun e e' => e.offset ≤ e'.offset → e.timestamp.nanos ≤ e'.timestamp.nanos)
    (fun e _ _ => Int.le_refl _) ?_ ?_ he he' hle
  · apply htimes.imp
    intro e e' hle _
    exact hle
  · exact hoffsets.imp fun hlt hle => absurd hlt (Int64.not_lt.mpr hle)

/-- **Compaction under a window drops what has expired, and nothing else.**  In every run,
on any partitions and under every strategy, in which the clock does not step back and the
offsets of the partition increase, a key has in the log the latest entry that has been
appended under it, until a compaction of the partition finds that entry too old. -/
theorem table_without_expired (strategy : CompactionStrategy)
    (calls : List (Int32 × CompactionOp)) (hcalls : Along call Iterates (new strategy) calls)
    (hclock : ClockForward calls) (q : Int32)
    (hoffsets : (appended q calls).Pairwise fun e e' => e.offset < e'.offset) (k : String)
    (e : CompactedEntry) :
    IsLatest (log ((calls.foldl call (new strategy)).segmentsOf q)) k e ↔
      IsLatest (appended q calls) k e ∧ Unexpired strategy q calls e := by
  induction calls using List.reverseRecOn generalizing k e with
  | nil => exact ⟨fun h => absurd h.mem.1 List.not_mem_nil, fun h => h.1⟩
  | append_singleton calls c ih =>
      obtain ⟨hbefore, hc, -⟩ := along_append.mp hcalls
      obtain ⟨hclockBefore, -, hlast⟩ := List.pairwise_append.mp hclock
      rw [appended_concat] at hoffsets
      obtain ⟨hoffsetsBefore, -, hgreatest⟩ := List.pairwise_append.mp hoffsets
      have hih := ih hbefore hclockBefore hoffsetsBefore
      have hmem : ∀ e ∈ log ((calls.foldl call (new strategy)).segmentsOf q),
          e ∈ appended q calls := fun e he => mem_appended hbefore he
      obtain ⟨hroom, hstrategy⟩ := settings_run strategy calls
      rw [List.foldl_concat, appended_concat, unexpired_concat]
      obtain ⟨partitionId, op⟩ := c
      cases op with
      | append key value offset now =>
          have hcutoff : cutoffOf strategy q (partitionId, .append key value offset now) = none :=
            rfl
          rw [log_append_call hroom, hcutoff]
          cases hx : entryOf q (partitionId, .append key value offset now) with
          | none => simpa using hih k e
          | some x =>
              have hlt : ∀ e ∈ appended q calls, e.offset < x.offset :=
                fun e he => hgreatest e he x (by simp [hx])
              have hfresh : Unexpired strategy q calls x := by
                intro cutoff hmemCutoff
                obtain ⟨c', hc', hcutoff'⟩ := List.mem_filterMap.mp hmemCutoff
                rw [timestamp_of_entryOf hx]
                exact (cutoffOf_le hcutoff').trans (hlast c' hc' _ (List.mem_singleton_self _))
              rw [Option.toList_some, isLatest_concat_of_lt fun e he => hlt e (hmem e he),
                isLatest_concat_of_lt hlt, hih]
              constructor
              · rintro (⟨hkey, rfl⟩ | ⟨hkey, hlatest, hstays⟩)
                · exact ⟨.inl ⟨hkey, rfl⟩, hfresh, by simp⟩
                · exact ⟨.inr ⟨hkey, hlatest⟩, hstays, by simp⟩
              · rintro ⟨⟨hkey, rfl⟩ | ⟨hkey, hlatest⟩, hstays, -⟩
                · exact .inl ⟨hkey, rfl⟩
                · exact .inr ⟨hkey, hlatest, hstays⟩
      | compactPartition order now =>
          -- the latest entry of a key is also the one appended last
          have hexpire : ∀ cutoff, LastToExpire cutoff
              (log ((calls.foldl call (new strategy)).segmentsOf q)) := by
            intro cutoff k latest hlatest hexpired e he hkey
            have hle := hlatest.offset_le he hkey
            exact (timestamp_le_of_offset_le hclockBefore hoffsetsBefore (hmem e he)
              (hmem latest hlatest.mem.1) hle).trans_lt hexpired
          have hcall := isLatest_compact_call (q := q) (k := k) (e := e) hc
            fun cutoff _ => hexpire cutoff
          rw [hstrategy] at hcall
          rw [hcall, hih, entryOf, Option.toList_none, List.append_nil, and_assoc]

/-- One entry expires before the partition is compacted, another is superseded later. -/
def firstExpires : List (Int32 × CompactionOp) :=
  [(0, .append "a" [1] 0 .unixEpoch), (0, .append "b" [2] 1 hundredSecs),
    (0, .compactPartition ["b"] hundredSecs), (0, .append "b" [3] 2 hundredSecs)]

theorem table_without_expired_firstExpires :
    Along call Iterates (new (.hybrid (.fromSecs 10))) firstExpires ∧
    ClockForward firstExpires ∧
    (appended 0 firstExpires).Pairwise (fun e e' => e.offset < e'.offset) ∧
    (IsLatest (log ((firstExpires.foldl call (new (.hybrid (.fromSecs 10)))).segmentsOf 0)) "b"
        ⟨"b", [3], 2, hundredSecs⟩ ↔
      IsLatest (appended 0 firstExpires) "b" ⟨"b", [3], 2, hundredSecs⟩ ∧
        Unexpired (.hybrid (.fromSecs 10)) 0 firstExpires ⟨"b", [3], 2, hundredSecs⟩) := by
  have hcalls : Along call Iterates (new (.hybrid (.fromSecs 10))) firstExpires := by
    decide +kernel
  have hclock : ClockForward firstExpires := by
    unfold ClockForward
    decide +kernel
  have hoffsets : (appended 0 firstExpires).Pairwise fun e e' => e.offset < e'.offset := by
    decide +kernel
  exact ⟨hcalls, hclock, hoffsets,
    table_without_expired (.hybrid (.fromSecs 10)) firstExpires hcalls hclock 0 hoffsets "b" _⟩

/-! ### The bytes -/

theorem valueBytes_append (l l' : List CompactedEntry) :
    valueBytes (l ++ l') = valueBytes l + valueBytes l' := by
  simp [valueBytes]

/-- What a call adds to a partition, and what it says that it takes away. -/
theorem valueBytes_call {m : LogCompactionManager} (h : m.InAccount) {c : Int32 × CompactionOp}
    (hc : m.Iterates c) :
    valueBytes (log ((m.call c).segmentsOf q)) + m.reclaimedBy q c =
      valueBytes (log (m.segmentsOf q)) + valueBytes (entryOf q c).toList := by
  have haccounts := h.accounts hc
  obtain ⟨partitionId, op⟩ := c
  cases op with
  | append key value offset now =>
      rw [log_append_call h.room, valueBytes_append]
      rfl
  | compactPartition order now =>
      show valueBytes (log ((m.compactPartition partitionId order now).2.segmentsOf q)) + _ = _
      unfold Accounts at haccounts
      dsimp only at haccounts
      simp only [reclaimedBy]
      split at haccounts
      · simp [haccounts, entryOf, valueBytes]
      · rename_i segs hlookup
        split at haccounts
        · simp [haccounts, entryOf, valueBytes]
        · obtain ⟨removed, hremoved, hreturn⟩ := haccounts
          rw [hreturn]
          by_cases hq : partitionId = q
          · subst hq
            have hsegments : m.segmentsOf partitionId = segs := by
              rw [segmentsOf, hlookup, Option.getD_some]
            have hsum := (hremoved.map fun e => e.value.length).sum_eq
            rw [List.map_append, List.sum_append, ← hsegments] at hsum
            simpa [entryOf, valueBytes] using hsum
          · rw [segmentsOf_compactPartition (Ne.symm hq)]
            simp [entryOf, valueBytes, hq]

theorem valueBytes_run {m : LogCompactionManager} (h : m.InAccount)
    (calls : List (Int32 × CompactionOp)) (hcalls : Along call Iterates m calls) :
    valueBytes (log ((calls.foldl call m).segmentsOf q)) + reclaimed q m calls =
      valueBytes (log (m.segmentsOf q)) + valueBytes (appended q calls) := by
  induction calls generalizing m with
  | nil => rfl
  | cons c calls ih =>
      have hcall := valueBytes_call (q := q) h hcalls.1
      have hrest := ih (h.call c) hcalls.2
      have happended : appended q (c :: calls) = (entryOf q c).toList ++ appended q calls := by
        rw [appended, List.filterMap_cons, appended]
        cases entryOf q c with
        | none => rfl
        | some x => rfl
      rw [List.foldl_cons, reclaimed, happended, valueBytes_append]
      omega

/-- A partition is there from the first entry on. -/
theorem lookup_call (m : LogCompactionManager) (c : Int32 × CompactionOp) :
    (m.call c).segments.lookup q = none ↔ m.segments.lookup q = none ∧ entryOf q c = none := by
  obtain ⟨partitionId, op⟩ := c
  cases op with
  | append key value offset now =>
      show (m.segments.insert partitionId _).lookup q = none ↔ _
      rw [HashMap.lookup_insert_eq]
      by_cases hq : partitionId = q
      · simp [entryOf, hq]
      · simp [entryOf, hq, Ne.symm hq]
  | compactPartition order now =>
      show (m.compactPartition partitionId order now).2.segments.lookup q = none ↔ _
      unfold compactPartition
      split
      · simp [entryOf]
      · rename_i segs hlookup
        split
        · simp [entryOf]
        · rw [HashMap.lookup_insert_eq]
          by_cases hq : q = partitionId
          · subst hq
            simp [entryOf, hlookup]
          · simp [entryOf, hq]

theorem lookup_run (strategy : CompactionStrategy) (calls : List (Int32 × CompactionOp)) :
    (calls.foldl call (new strategy)).segments.lookup q = none ↔ appended q calls = [] := by
  induction calls using List.reverseRecOn with
  | nil => exact iff_of_true rfl rfl
  | append_singleton calls c ih =>
      rw [List.foldl_concat, lookup_call, ih, appended_concat,
        List.append_eq_nil_iff, Option.toList_eq_nil_iff]

theorem inAccount_new (strategy : CompactionStrategy) : (new strategy).InAccount := by
  refine ⟨show 0 < 1024 * 1024 * 100 by decide, fun partitionId s hs => ?_⟩
  exact absurd hs List.not_mem_nil

/-- **The stats are those of what is left.**  In every run, under every strategy, a
partition is unknown until something is appended to it; then `get_stats` counts the
entries of its log, and its bytes are those of all that has been appended less those that
its compactions have reported.  `needs_compaction` goes by the same number. -/
theorem bytes_conserved (strategy : CompactionStrategy) (calls : List (Int32 × CompactionOp))
    (hcalls : Along call Iterates (new strategy) calls) (q : Int32) :
    let m := calls.foldl call (new strategy)
    reclaimed q (new strategy) calls ≤ valueBytes (appended q calls) ∧
    m.getStats q =
      (if appended q calls = [] then none
      else some ((m.segmentsOf q).length, (log (m.segmentsOf q)).length,
        valueBytes (appended q calls) - reclaimed q (new strategy) calls)) ∧
    (m.needsCompaction q = true ↔
      minCompactionSize + reclaimed q (new strategy) calls ≤ valueBytes (appended q calls)) := by
  intro m
  have hstart : valueBytes (log ((new strategy).segmentsOf q)) = 0 := rfl
  have hbytes : valueBytes (log (m.segmentsOf q)) + reclaimed q (new strategy) calls =
      valueBytes (appended q calls) := by
    rw [valueBytes_run (inAccount_new strategy) calls hcalls, hstart, Nat.zero_add]
  have hcounted : m.InAccount :=
    (Always.of_along (inAccount_new strategy) hcalls fun m c h _ => h.call c).last
  have hsize := sizeOf_eq_valueBytes (hcounted.counted q)
  have hknown := lookup_run (q := q) strategy calls
  have hsum : sizeOf (m.segmentsOf q) =
      valueBytes (appended q calls) - reclaimed q (new strategy) calls := by
    rw [hsize]
    omega
  refine ⟨by omega, ?_⟩
  cases hlookup : m.segments.lookup q with
  | none =>
      have hnothing := hknown.mp hlookup
      refine ⟨by rw [getStats, hlookup, if_pos hnothing, Option.map_none], ?_⟩
      rw [needsCompaction, hlookup, hnothing]
      refine iff_of_false Bool.false_ne_true fun hle => ?_
      simp [valueBytes, minCompactionSize] at hle
  | some segs =>
      have hsomething : appended q calls ≠ [] := fun h => by
        rw [hknown.mpr h] at hlookup
        cases hlookup
      have hsegments : m.segmentsOf q = segs := by rw [segmentsOf, hlookup, Option.getD_some]
      rw [hsegments] at hsum ⊢
      constructor
      · rw [getStats, hlookup, if_neg hsomething, Option.map_some, hsum, log, List.length_flatMap]
      · rw [needsCompaction, hlookup]
        dsimp only
        rw [hsum, decide_eq_true_eq]
        omega

theorem bytes_conserved_firstExpires :
    Along call Iterates (new (.hybrid (.fromSecs 10))) firstExpires ∧
    let m := firstExpires.foldl call (new (.hybrid (.fromSecs 10)))
    reclaimed 0 (new (.hybrid (.fromSecs 10))) firstExpires ≤
      valueBytes (appended 0 firstExpires) ∧
    m.getStats 0 =
      (if appended 0 firstExpires = [] then none
      else some ((m.segmentsOf 0).length, (log (m.segmentsOf 0)).length,
        valueBytes (appended 0 firstExpires) -
          reclaimed 0 (new (.hybrid (.fromSecs 10))) firstExpires)) ∧
    (m.needsCompaction 0 = true ↔
      minCompactionSize + reclaimed 0 (new (.hybrid (.fromSecs 10))) firstExpires ≤
        valueBytes (appended 0 firstExpires)) := by
  have hcalls : Along call Iterates (new (.hybrid (.fromSecs 10))) firstExpires := by
    decide +kernel
  exact ⟨hcalls, bytes_conserved (.hybrid (.fromSecs 10)) firstExpires hcalls 0⟩

end LogCompactionManager

end Rafka
