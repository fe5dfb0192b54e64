/-
Rafka/Compaction.lean

Log compaction (`LogSegment`, `CompactionStrategy` and `LogCompactionManager` in
`crates/broker/src/compaction.rs`).

The log of a partition is the concatenation of its segments (`log`).  `append` adds to
the last segment, or opens a new one.  KeepLatest collects the latest entry of every key
in a hash map and rebuilds the segments from the values of the map, in whatever order it
iterates; TimeWindow drops old entries in place; Hybrid does both.

Main results: KeepLatest leaves exactly the latest entry of every key, and does nothing
more when it is run again (`keepLatest_exact`); the log stays in order, within the
bounds of its segments, exactly as long as every KeepLatest or Hybrid compaction
iterates by increasing offset and starts with an offset from zero on (`in_order_iff`).
-/
import Mathlib.Data.List.ModifyLast
import Rafka.Trace
import Rafka.HashMap
import Rafka.Time

namespace Rafka

/-- `CompactedEntry`. -/
structure CompactedEntry where
  key : String
  value : List UInt8
  offset : Int64
  timestamp : SystemTime
deriving DecidableEq

/-- `LogSegment`. -/
structure LogSegment where
  startOffset : Int64
  endOffset : Int64
  entries : List CompactedEntry
  sizeBytes : Nat
deriving DecidableEq

namespace LogSegment

/-- `LogSegment::new`. -/
def new (startOffset : Int64) : LogSegment :=
  { startOffset := startOffset, endOffset := startOffset, entries := [], sizeBytes := 0 }

/-- `LogSegment::add_entry`. -/
def addEntry (s : LogSegment) (entry : CompactedEntry) : LogSegment :=
  { s with
    sizeBytes := s.sizeBytes + entry.value.length
    endOffset := entry.offset
    entries := s.entries ++ [entry] }

/-- The entries from `cutoff` on stay, and the size is counted anew. -/
def retainFrom (cutoff : SystemTime) (s : LogSegment) : LogSegment :=
  let entries := s.entries.filter fun entry => cutoff.nanos ≤ entry.timestamp.nanos
  { s with
    entries := entries
    sizeBytes := (entries.map fun e => e.value.length).sum }

end LogSegment

/-- `CompactionStrategy`. -/
inductive CompactionStrategy where
  | keepLatest
  | timeWindow (duration : Duration)
  | hybrid (duration : Duration)
deriving DecidableEq

/-- The window of a strategy that has one. -/
def CompactionStrategy.window : CompactionStrategy → Option Duration
  | .keepLatest => none
  | .timeWindow duration => some duration
  | .hybrid duration => some duration

/-- `LogCompactionManager`, without the bound of `needs_compaction`. -/
structure LogCompactionManager where
  segments : HashMap Int32 (List LogSegment)
  strategy : CompactionStrategy
  maxSegmentSize : Nat

namespace LogCompactionManager

/-! ### The operations -/

/-- `LogCompactionManager::new`. -/
def new (strategy : CompactionStrategy) : LogCompactionManager :=
  { segments := ∅
    strategy := strategy
    maxSegmentSize := 1024 * 1024 * 100 }

/-- What `append` does to the segments of the partition. -/
def appendEntry (maxSegmentSize : Nat) (partitionSegments : List LogSegment)
    (entry : CompactedEntry) : List LogSegment :=
  let segments :=
    if partitionSegments = [] then [LogSegment.new entry.offset] else partitionSegments
  -- a full segment is followed by a new one
  let segments :=
    if segments.getLast?.any fun current => maxSegmentSize ≤ current.sizeBytes then
      segments ++ [LogSegment.new entry.offset]
    else segments
  segments.modifyLast fun current => current.addEntry entry

/-- `LogCompactionManager::append`. -/
def append (m : LogCompactionManager) (partitionId : Int32) (key : String) (value : List UInt8)
    (offset : Int64) (now : SystemTime) : LogCompactionManager :=
  let partitionSegments := (m.segments.lookup partitionId).getD []
  let entry :=
    { key := key, value := value, offset := offset, timestamp := now : CompactedEntry }
  { m with
    segments :=
      m.segments.insert partitionId (appendEntry m.maxSegmentSize partitionSegments entry) }

/-- An entry is kept if its key is new or its offset greater than the one kept. -/
def keepLatestTurn (latestEntries : HashMap String CompactedEntry) (entry : CompactedEntry) :
    HashMap String CompactedEntry :=
  match latestEntries.lookup entry.key with
  | some e =>
      if e.offset < entry.offset then latestEntries.insert entry.key entry else latestEntries
  | none => latestEntries.insert entry.key entry

/-- The map that `compact_keep_latest` collects. -/
def latestEntries (segments : List LogSegment) : HashMap String CompactedEntry :=
  segments.foldl (fun latest segment => segment.entries.foldl keepLatestTurn latest) ∅

/-- One turn of the loop that rebuilds the segments: the full ones, and the new one. -/
def rebuildTurn (maxSegmentSize : Nat) (s : List LogSegment × LogSegment)
    (entry : CompactedEntry) : List LogSegment × LogSegment :=
  if maxSegmentSize ≤ s.2.sizeBytes then
    (s.1 ++ [s.2], (LogSegment.new entry.offset).addEntry entry)
  else (s.1, s.2.addEntry entry)

/-- The segments rebuilt from the values of a map that is not empty. -/
def rebuild (maxSegmentSize : Nat) (entries : List CompactedEntry) : List LogSegment :=
  let s := entries.foldl (rebuildTurn maxSegmentSize) ([], LogSegment.new 0)
  s.1 ++ [s.2]

/-- `LogCompactionManager::compact_keep_latest`, where the map iterates in the order of
the keys `order`. -/
def compactKeepLatest (maxSegmentSize : Nat) (order : List String) (segments : List LogSegment) :
    List LogSegment :=
  let latest := latestEntries segments
  if latest = ∅ then []
  else rebuild maxSegmentSize ((HashMap.iter order latest).map Prod.snd)

/-- The segments without the entries before `cutoffTime`, and without those that become
empty. -/
def dropBefore (cutoffTime : SystemTime) (segments : List LogSegment) : List LogSegment :=
  (segments.map (LogSegment.retainFrom cutoffTime)).filter fun s => s.entries ≠ []

/-- `LogCompactionManager::compact_time_window`; the subtraction may panic. -/
def compactTimeWindow (window : Duration) (now : SystemTime) (segments : List LogSegment) :
    Option (List LogSegment) :=
  (now.sub window).map fun cutoffTime => dropBefore cutoffTime segments

/-- `LogCompactionManager::compact_hybrid`. -/
def compactHybrid (maxSegmentSize : Nat) (order : List String) (window : Duration)
    (now : SystemTime) (segments : List LogSegment) : Option (List LogSegment) :=
  (compactTimeWindow window now segments).map (compactKeepLatest maxSegmentSize order)

/-- The `match` on the strategy. -/
def compactSegments (m : LogCompactionManager) (order : List String) (now : SystemTime)
    (segments : List LogSegment) : Option (List LogSegment) :=
  match m.strategy with
  | .keepLatest => some (compactKeepLatest m.maxSegmentSize order segments)
  | .timeWindow duration => compactTimeWindow duration now segments
  | .hybrid duration => compactHybrid m.maxSegmentSize order duration now segments

/-- The bytes of some segments. -/
def sizeOf (segments : List LogSegment) : Nat := (segments.map fun s => s.sizeBytes).sum

/-- `LogCompactionManager::compact_partition`: the bytes reclaimed, or `none` for a panic
(of the clock, or of the subtraction at the end), and the manager it leaves. -/
def compactPartition (m : LogCompactionManager) (partitionId : Int32) (order : List String)
    (now : SystemTime) : Option (Except String Nat) × LogCompactionManager :=
  match m.segments.lookup partitionId with
  | none => (some (.error s!"Partition {partitionId} not found"), m)
  | some partitionSegments =>
      match m.compactSegments order now partitionSegments with
      | none => (none, m)
      | some compacted =>
          let originalSize := sizeOf partitionSegments
          let newSize := sizeOf compacted
          (if newSize ≤ originalSize then some (.ok (originalSize - newSize)) else none,
            { m with segments := m.segments.insert partitionId compacted })

/-! ### The log and its latest entries -/

/-- The entries read through the segments in sequence. -/
def log (segments : List LogSegment) : List CompactedEntry :=
  segments.flatMap fun s => s.entries

/-- The entry has the greatest offset among those of its key, and is the first such. -/
def IsLatest (entries : List CompactedEntry) (k : String) (e : CompactedEntry) : Prop :=
  ∃ i : Nat, entries[i]? = some e ∧ e.key = k ∧
    ∀ (j : Nat) e', entries[j]? = some e' → e'.key = k →
      e'.offset ≤ e.offset ∧ (j < i → e'.offset < e.offset)

variable {segments : List LogSegment} {entries : List CompactedEntry} {e : CompactedEntry}

theorem latestEntries_eq (segments : List LogSegment) :
    latestEntries segments = (log segments).foldl keepLatestTurn ∅ := by
  rw [latestEntries, log, List.foldl_flatMap]

theorem lookup_keepLatestTurn (latest : HashMap String CompactedEntry) (entry : CompactedEntry)
    (k : String) :
    (keepLatestTurn latest entry).lookup k =
      if k = entry.key ∧ ∀ e ∈ latest.lookup k, e.offset < entry.offset then some entry
      else latest.lookup k := by
  unfold keepLatestTurn
  by_cases hk : k = entry.key
  · subst hk
    cases hold : latest.lookup entry.key with
    | none => simp
    | some e =>
        by_cases hlt : e.offset < entry.offset
        · simp [hlt]
        · simp [hlt, hold]
  · cases hold : latest.lookup entry.key with
    | none => simp [hk]
    | some e =>
        by_cases hlt : e.offset < entry.offset
        · simp [hk, hlt]
        · simp [hk, hlt]

/-- **What the map holds.**  Under every key that occurs, its latest entry. -/
theorem lookup_foldl_keepLatestTurn (entries : List CompactedEntry) (k : String) :
    ((entries.foldl keepLatestTurn ∅).lookup k = none ∧ ∀ e ∈ entries, e.key ≠ k) ∨
      ∃ e, (entries.foldl keepLatestTurn ∅).lookup k = some e ∧ IsLatest entries k e := by
  induction entries using List.reverseRecOn with
  | nil => exact .inl ⟨rfl, by simp⟩
  | append_singleton entries x ih =>
      rw [List.foldl_append, List.foldl_cons, List.foldl_nil, lookup_keepLatestTurn]
      rcases ih with ⟨hnone, hfresh⟩ | ⟨e, hsome, i, hi, hkey, hgreatest⟩
      · by_cases hk : k = x.key
        · -- the first entry of its key
          refine .inr ⟨x, if_pos ⟨hk, by simp [hnone]⟩, entries.length, by simp, hk.symm, ?_⟩
          intro j e' hj hkey'
          rcases getElem?_concat_cases hj with hold | ⟨rfl, rfl⟩
          · exact absurd hkey' (hfresh e' (List.mem_of_getElem? hold))
          · exact ⟨Int64.le_refl _, fun hlt => absurd hlt (Nat.lt_irrefl _)⟩
        · refine .inl ⟨by rw [if_neg (by simp [hk]), hnone], fun e he => ?_⟩
          rcases List.mem_append.mp he with hold | hnew
          · exact hfresh e hold
          · rw [List.mem_singleton.mp hnew]
            exact fun h => hk h.symm
      · have hlt := (List.getElem?_eq_some_iff.mp hi).1
        have hi' : (entries ++ [x])[i]? = some e := (List.getElem?_append_left hlt).trans hi
        by_cases hnew : k = x.key ∧ e.offset < x.offset
        · -- it is later than all entries before it
          refine .inr ⟨x, if_pos ⟨hnew.1, by simpa [hsome] using hnew.2⟩, entries.length, by simp,
            hnew.1.symm, ?_⟩
          intro j e' hj hkey'
          rcases getElem?_concat_cases hj with hold | ⟨rfl, rfl⟩
          · have hle := (hgreatest j e' hold hkey').1
            have hless : e'.offset < x.offset := Std.lt_of_le_of_lt hle hnew.2
            exact ⟨Std.le_of_lt hless, fun _ => hless⟩
          · exact ⟨Int64.le_refl _, fun hlt => absurd hlt (Nat.lt_irrefl _)⟩
        · refine .inr ⟨e, ?_, i, hi', hkey, ?_⟩
          · rw [hsome, if_neg (by simpa using hnew)]
          · intro j e' hj hkey'
            rcases getElem?_concat_cases hj with hold | ⟨rfl, rfl⟩
            · exact hgreatest j e' hold hkey'
            · refine ⟨Int64.not_lt.mp fun h => hnew ⟨hkey'.symm, h⟩, fun hless => ?_⟩
              omega

/-- A key has one latest entry. -/
theorem IsLatest.unique {k : String} {e e' : CompactedEntry} (h : IsLatest entries k e)
    (h' : IsLatest entries k e') : e = e' := by
  obtain ⟨i, hi, hkey, hgreatest⟩ := h
  obtain ⟨i', hi', hkey', hgreatest'⟩ := h'
  have hle := hgreatest i' e' hi' hkey'
  have hle' := hgreatest' i e hi hkey
  rcases Nat.lt_trichotomy i i' with hlt | heq | hgt
  · exact absurd (hle'.2 hlt) (Int64.not_lt.mpr hle.1)
  · subst heq
    exact Option.some.inj (hi.symm.trans hi')
  · exact absurd (hle.2 hgt) (Int64.not_lt.mpr hle'.1)

theorem lookup_latestEntries_iff {k : String} :
    (latestEntries segments).lookup k = some e ↔ IsLatest (log segments) k e := by
  rw [latestEntries_eq]
  rcases lookup_foldl_keepLatestTurn (log segments) k with ⟨hnone, hfresh⟩ | ⟨e', hsome, hlatest⟩
  · rw [hnone]
    apply iff_of_false (Option.some_ne_none e).symm
    rintro ⟨i, hi, hkey, -⟩
    exact hfresh e (List.mem_of_getElem? hi) hkey
  · rw [hsome]
    constructor
    · intro h
      cases h
      exact hlatest
    · intro h
      rw [hlatest.unique h]

theorem lookup_latestEntries_eq_none {k : String} :
    (latestEntries segments).lookup k = none ↔ ∀ e ∈ log segments, e.key ≠ k := by
  rw [latestEntries_eq]
  rcases lookup_foldl_keepLatestTurn (log segments) k with ⟨hnone, hfresh⟩ | ⟨e', hsome, hlatest⟩
  · exact iff_of_true hnone hfresh
  · rw [hsome]
    apply iff_of_false (Option.some_ne_none _)
    intro hfresh
    obtain ⟨i, hi, hkey, -⟩ := hlatest
    exact hfresh e' (List.mem_of_getElem? hi) hkey

/-! ### Adding to the segments -/

theorem log_append (l l' : List LogSegment) : log (l ++ l') = log l ++ log l' :=
  List.flatMap_append

theorem log_singleton (s : LogSegment) : log [s] = s.entries := by
  simp [log]

theorem mem_log_of_mem {s : LogSegment} (hs : s ∈ segments) (he : e ∈ s.entries) :
    e ∈ log segments :=
  List.mem_flatMap.mpr ⟨s, hs, he⟩

theorem appendEntry_concat (maxSegmentSize : Nat) (full : List LogSegment) (current : LogSegment)
    (x : CompactedEntry) :
    appendEntry maxSegmentSize (full ++ [current]) x =
      if maxSegmentSize ≤ current.sizeBytes then
        full ++ [current] ++ [(LogSegment.new x.offset).addEntry x]
      else full ++ [current.addEntry x] := by
  simp only [appendEntry, List.append_eq_nil_iff, List.cons_ne_nil, and_false, if_false,
    List.getLast?_concat, Option.any_some, decide_eq_true_eq]
  split
  · exact List.modifyLast_concat _ _ _
  · exact List.modifyLast_concat _ _ _

/-- An entry goes to the last segment or to a new one. -/
theorem appendEntry_cases {maxSegmentSize : Nat} (x : CompactedEntry)
    (h : segments ≠ [] ∨ 0 < maxSegmentSize) :
    (∃ full current, segments = full ++ [current] ∧
      appendEntry maxSegmentSize segments x = full ++ [current.addEntry x]) ∨
    appendEntry maxSegmentSize segments x =
      segments ++ [(LogSegment.new x.offset).addEntry x] := by
  rcases List.eq_nil_or_concat segments with rfl | ⟨full, current, rfl⟩
  · refine .inr ?_
    have hroom : 0 < maxSegmentSize := h.resolve_left fun hne => hne rfl
    have hfresh := appendEntry_concat maxSegmentSize [] (LogSegment.new x.offset) x
    rw [if_neg (by simpa [LogSegment.new] using Nat.ne_of_gt hroom)] at hfresh
    exact hfresh
  · rw [List.concat_eq_append, appendEntry_concat]
    split
    · exact .inr rfl
    · exact .inl ⟨full, current, rfl, rfl⟩

theorem log_appendEntry {maxSegmentSize : Nat} (x : CompactedEntry)
    (h : segments ≠ [] ∨ 0 < maxSegmentSize) :
    log (appendEntry maxSegmentSize segments x) = log segments ++ [x] := by
  rcases appendEntry_cases x h with ⟨full, current, rfl, heq⟩ | heq
  · rw [heq, log_append, log_append, log_singleton, log_singleton, List.append_assoc]
    rfl
  · rw [heq, log_append, log_singleton]
    rfl

theorem sizeOf_appendEntry {maxSegmentSize : Nat} (x : CompactedEntry)
    (h : segments ≠ [] ∨ 0 < maxSegmentSize) :
    sizeOf (appendEntry maxSegmentSize segments x) = sizeOf segments + x.value.length := by
  rcases appendEntry_cases x h with ⟨full, current, rfl, heq⟩ | heq
  · simp [heq, sizeOf, LogSegment.addEntry, Nat.add_assoc]
  · simp [heq, sizeOf, LogSegment.addEntry, LogSegment.new]

/-! ### Rebuilding -/

/-- The loop that rebuilds adds its entries the way `append` does. -/
theorem rebuild_concat (maxSegmentSize : Nat) (entries : List CompactedEntry)
    (x : CompactedEntry) :
    rebuild maxSegmentSize (entries ++ [x]) =
      appendEntry maxSegmentSize (rebuild maxSegmentSize entries) x := by
  rw [rebuild, rebuild, appendEntry_concat, List.foldl_append, List.foldl_cons, List.foldl_nil,
    rebuildTurn]
  split
  · rfl
  · rfl

theorem rebuild_ne_nil (maxSegmentSize : Nat) (entries : List CompactedEntry) :
    rebuild maxSegmentSize entries ≠ [] := by
  simp [rebuild]

theorem log_rebuild (maxSegmentSize : Nat) (entries : List CompactedEntry) :
    log (rebuild maxSegmentSize entries) = entries := by
  induction entries using List.reverseRecOn with
  | nil => rfl
  | append_singleton entries x ih =>
      rw [rebuild_concat, log_appendEntry x (.inl (rebuild_ne_nil _ _)), ih]

/-- The rebuilt segments count their bytes. -/
theorem sizeOf_rebuild (maxSegmentSize : Nat) (entries : List CompactedEntry) :
    sizeOf (rebuild maxSegmentSize entries) = (entries.map fun e => e.value.length).sum := by
  induction entries using List.reverseRecOn with
  | nil => rfl
  | append_singleton entries x ih =>
      rw [rebuild_concat, sizeOf_appendEntry x (.inl (rebuild_ne_nil _ _)), ih]
      simp

/-! ### KeepLatest -/

/-- What the map hands over, in its order. -/
def survivors (order : List String) (segments : List LogSegment) : List CompactedEntry :=
  (HashMap.iter order (latestEntries segments)).map Prod.snd

theorem survivors_eq_nil {order : List String} (h : latestEntries segments = ∅) :
    survivors order segments = [] := by
  rw [survivors, h, HashMap.iter]
  simp

theorem compactKeepLatest_eq (maxSegmentSize : Nat) (order : List String)
    (segments : List LogSegment) :
    compactKeepLatest maxSegmentSize order segments =
      if latestEntries segments = ∅ then [] else rebuild maxSegmentSize (survivors order segments) :=
  rfl

theorem log_compactKeepLatest (maxSegmentSize : Nat) (order : List String)
    (segments : List LogSegment) :
    log (compactKeepLatest maxSegmentSize order segments) = survivors order segments := by
  rw [compactKeepLatest_eq]
  split
  · rename_i hempty
    rw [survivors_eq_nil hempty]
    rfl
  · exact log_rebuild maxSegmentSize _

theorem sizeOf_compactKeepLatest (maxSegmentSize : Nat) (order : List String)
    (segments : List LogSegment) :
    sizeOf (compactKeepLatest maxSegmentSize order segments) =
      ((survivors order segments).map fun e => e.value.length).sum := by
  rw [compactKeepLatest_eq]
  split
  · rename_i hempty
    rw [survivors_eq_nil hempty]
    rfl
  · exact sizeOf_rebuild maxSegmentSize _

section Survivors

variable {order : List String} (horder : HashMap.Enumerates order (latestEntries segments))
include horder

/-- The survivors come under their keys. -/
theorem map_key_survivors : (survivors order segments).map (fun e => e.key) = order := by
  have hkeys : ∀ l : List String, (∀ k ∈ l, k ∈ order) →
      (l.filterMap fun k => (latestEntries segments).lookup k).map (fun e => e.key) = l := by
    intro l hl
    induction l with
    | nil => rfl
    | cons k l ih =>
        obtain ⟨e, he⟩ := Finmap.mem_iff.mp (horder.mem_iff.mp (hl k List.mem_cons_self))
        obtain ⟨i, -, hkey, -⟩ := lookup_latestEntries_iff.mp he
        have hrest := ih fun k' hk' => hl k' (List.mem_cons_of_mem k hk')
        rw [List.filterMap_cons, he]
        simp only [List.map_cons, hkey, hrest]
  rw [survivors, HashMap.map_snd_iter]
  exact hkeys order fun _ hk => hk

theorem nodup_key_survivors : ((survivors order segments).map fun e => e.key).Nodup := by
  rw [map_key_survivors horder]
  exact horder.1

theorem mem_survivors : e ∈ survivors order segments ↔ IsLatest (log segments) e.key e := by
  rw [← lookup_latestEntries_iff, ← horder.mem_iter, survivors, List.mem_map]
  constructor
  · rintro ⟨⟨k, e'⟩, hmem, rfl⟩
    obtain ⟨i, -, hkey, -⟩ := lookup_latestEntries_iff.mp (horder.mem_iter.mp hmem)
    rwa [hkey]
  · intro hmem
    exact ⟨_, hmem, rfl⟩

end Survivors

/-- In a list of entries with distinct keys every entry is the latest of its key. -/
theorem isLatest_iff_of_nodup (h : (entries.map fun e => e.key).Nodup) :
    IsLatest entries e.key e ↔ e ∈ entries := by
  constructor
  · rintro ⟨i, hi, -⟩
    exact List.mem_of_getElem? hi
  · intro he
    obtain ⟨i, hi⟩ := List.mem_iff_getElem?.mp he
    have hlt := (List.getElem?_eq_some_iff.mp hi).1
    refine ⟨i, hi, rfl, fun j e' hj hkey => ?_⟩
    have hij : i = j := by
      refine (List.getElem?_inj (by simpa using hlt) h).mp ?_
      rw [List.getElem?_map, List.getElem?_map, hi, hj, Option.map_some, Option.map_some, hkey]
    subst hij
    cases hi.symm.trans hj
    exact ⟨Int64.le_refl _, fun hlt => absurd hlt (Nat.lt_irrefl _)⟩

theorem filter_key_eq (h : (entries.map fun e => e.key).Nodup) (he : e ∈ entries) :
    entries.filter (fun e' => e'.key = e.key) = [e] := by
  have hnodup : (entries.filter fun e' => e'.key = e.key).Nodup := (List.Nodup.of_map _ h).filter _
  refine List.perm_singleton.mp ((List.perm_ext_iff_of_nodup hnodup (List.nodup_singleton e)).mpr
    fun e' => ?_)
  rw [List.mem_filter, List.mem_singleton, decide_eq_true_eq]
  constructor
  · rintro ⟨he', hkey⟩
    exact List.inj_on_of_nodup_map h he' he hkey
  · rintro rfl
    exact ⟨he, rfl⟩

/-- A second run finds the same entries. -/
theorem survivors_perm {order order' : List String} {segments' : List LogSegment}
    (horder : HashMap.Enumerates order (latestEntries segments))
    (hlog : log segments' = survivors order segments)
    (horder' : HashMap.Enumerates order' (latestEntries segments')) :
    (survivors order' segments').Perm (log segments') := by
  have hnodup : ((log segments').map fun e => e.key).Nodup := by
    rw [hlog]
    exact nodup_key_survivors horder
  refine (List.perm_ext_iff_of_nodup (List.Nodup.of_map _ (nodup_key_survivors horder'))
    (List.Nodup.of_map _ hnodup)).mpr fun e => ?_
  rw [mem_survivors horder', isLatest_iff_of_nodup hnodup]

/-- **KeepLatest preserves the meaning of the log.**  Whatever the segments and the order
of the map, every key that occurred keeps its latest entry, and there is nothing else;
run again on what it left, in whatever order, compaction returns that it reclaimed no
bytes and leaves the same entries. -/
theorem keepLatest_exact (maxSegmentSize : Nat) (segments : List LogSegment)
    (order : List String) (horder : HashMap.Enumerates order (latestEntries segments)) :
    let compacted := compactKeepLatest maxSegmentSize order segments
    (∀ k, ((∀ e ∈ log segments, e.key ≠ k) ∧ (log compacted).filter (fun e => e.key = k) = []) ∨
      ∃ e, IsLatest (log segments) k e ∧ (log compacted).filter (fun e => e.key = k) = [e]) ∧
    ∀ (m : LogCompactionManager) partitionId order' now,
      m.strategy = .keepLatest → m.segments.lookup partitionId = some compacted →
      HashMap.Enumerates order' (latestEntries compacted) →
      ∃ again, m.compactPartition partitionId order' now =
          (some (.ok 0), { m with segments := m.segments.insert partitionId again }) ∧
        (log again).Perm (log compacted) := by
  have hlog := log_compactKeepLatest maxSegmentSize order segments
  refine ⟨fun k => ?_, fun m partitionId order' now hstrategy hlookup horder' => ?_⟩
  · rw [hlog]
    cases hfound : (latestEntries segments).lookup k with
    | none =>
        have hfresh := lookup_latestEntries_eq_none.mp hfound
        refine .inl ⟨hfresh, List.filter_eq_nil_iff.mpr fun e he hkey => ?_⟩
        obtain ⟨i, hi, -⟩ := (mem_survivors horder).mp he
        exact hfresh e (List.mem_of_getElem? hi) (of_decide_eq_true hkey)
    | some e =>
        have hlatest := lookup_latestEntries_iff.mp hfound
        obtain ⟨-, -, rfl, -⟩ := id hlatest
        exact .inr ⟨e, hlatest,
          filter_key_eq (nodup_key_survivors horder) ((mem_survivors horder).mpr hlatest)⟩
  · have hperm := survivors_perm horder hlog horder'
    have hsize : sizeOf (compactKeepLatest m.maxSegmentSize order'
        (compactKeepLatest maxSegmentSize order segments)) =
        sizeOf (compactKeepLatest maxSegmentSize order segments) := by
      rw [sizeOf_compactKeepLatest, sizeOf_compactKeepLatest, ← hlog]
      exact (hperm.map _).sum_eq
    refine ⟨compactKeepLatest m.maxSegmentSize order'
      (compactKeepLatest maxSegmentSize order segments), ?_, ?_⟩
    · simp only [compactPartition, hlookup, compactSegments, hstrategy, hsize, Nat.le_refl,
        if_true, Nat.sub_self]
    · rw [log_compactKeepLatest]
      exact hperm

/-- An entry written at the epoch. -/
def epochEntry (key : String) (value : List UInt8) (offset : Int64) : CompactedEntry :=
  { key := key, value := value, offset := offset, timestamp := .unixEpoch }

/-- Two segments, with a tie under one of the keys. -/
def tiedSegments : List LogSegment :=
  [((LogSegment.new 3).addEntry (epochEntry "a" [1] 3)).addEntry (epochEntry "b" [2, 2] 1),
    (LogSegment.new 3).addEntry (epochEntry "a" [3, 3, 3] 3)]

/-- A manager that holds them compacted. -/
def tiedManager : LogCompactionManager :=
  { new .keepLatest with
    segments := Finmap.singleton 0 (compactKeepLatest 100 ["b", "a"] tiedSegments) }

theorem keepLatest_exact_tied :
    log (compactKeepLatest 100 ["b", "a"] tiedSegments) =
      [epochEntry "b" [2, 2] 1, epochEntry "a" [1] 3] ∧
    ∃ again, tiedManager.compactPartition 0 ["a", "b"] .unixEpoch =
        (some (.ok 0), { tiedManager with segments := tiedManager.segments.insert 0 again }) ∧
      (log again).Perm (log (compactKeepLatest 100 ["b", "a"] tiedSegments)) :=
  ⟨by decide +kernel,
    (keepLatest_exact 100 tiedSegments ["b", "a"] (by decide +kernel)).2 tiedManager 0 ["a", "b"]
      .unixEpoch rfl rfl (by decide +kernel)⟩

/-! ### What keeps the log in order -/

/-- The offsets of the entries lie within the bounds of the segment. -/
def Bounded (s : LogSegment) : Prop :=
  ∀ e ∈ s.entries, s.startOffset ≤ e.offset ∧ e.offset ≤ s.endOffset

/-- Offsets increase. -/
def Ascending (entries : List CompactedEntry) : Prop :=
  entries.Pairwise fun e e' => e.offset < e'.offset

/-- The log is in order, and every segment within its bounds. -/
structure Ordered (segments : List LogSegment) : Prop where
  ascending : Ascending (log segments)
  bounded : ∀ s ∈ segments, Bounded s

theorem Bounded.addEntry {s : LogSegment} {x : CompactedEntry} (h : Bounded s)
    (hlater : ∀ e ∈ s.entries, e.offset < x.offset)
    (hempty : s.entries = [] → s.startOffset ≤ x.offset) : Bounded (s.addEntry x) := by
  intro e he
  rcases List.mem_append.mp he with hold | hnew
  · exact ⟨(h e hold).1, Std.le_of_lt (hlater e hold)⟩
  · rw [List.mem_singleton.mp hnew]
    refine ⟨?_, Int64.le_refl _⟩
    show s.startOffset ≤ x.offset
    cases hentries : s.entries with
    | nil => exact hempty hentries
    | cons first rest =>
        have hfirst : first ∈ s.entries := hentries ▸ List.mem_cons_self
        exact Std.le_of_lt (Std.lt_of_le_of_lt (h first hfirst).1 (hlater first hfirst))

theorem bounded_new (x : CompactedEntry) : Bounded ((LogSegment.new x.offset).addEntry x) :=
  Bounded.addEntry (fun _ he => absurd he List.not_mem_nil)
    (fun _ he => absurd he List.not_mem_nil) fun _ => Int64.le_refl _

theorem ascending_concat {x : CompactedEntry} :
    Ascending (entries ++ [x]) ↔ Ascending entries ∧ ∀ e ∈ entries, e.offset < x.offset := by
  simp [Ascending, List.pairwise_append]

/-- What holds of every segment still does, if it does of the one that the entry is added
to. -/
theorem forall_appendEntry {P : LogSegment → Prop} {maxSegmentSize : Nat} {x : CompactedEntry}
    (h : segments ≠ [] ∨ 0 < maxSegmentSize) (hold : ∀ s ∈ segments, P s)
    (hadd : ∀ s ∈ segments, P s → P (s.addEntry x))
    (hnew : P ((LogSegment.new x.offset).addEntry x)) :
    ∀ s ∈ appendEntry maxSegmentSize segments x, P s := by
  rcases appendEntry_cases x h with ⟨full, current, rfl, heq⟩ | heq
  all_goals
    rw [heq]
    intro s hs
    rcases List.mem_append.mp hs with hbefore | hlast
  · exact hold s (List.mem_append_left _ hbefore)
  · cases List.mem_singleton.mp hlast
    have hcurrent : current ∈ full ++ [current] :=
      List.mem_append_right _ (List.mem_singleton_self current)
    exact hadd current hcurrent (hold current hcurrent)
  · exact hold s hbefore
  · cases List.mem_singleton.mp hlast
    exact hnew

/-- **Step lemma.**  An entry that is later than all others keeps the log in order. -/
theorem appendEntry_bounded {maxSegmentSize : Nat} {x : CompactedEntry}
    (h : segments ≠ [] ∨ 0 < maxSegmentSize) (hbounded : ∀ s ∈ segments, Bounded s)
    (hlater : ∀ e ∈ log segments, e.offset < x.offset)
    (hempty : ∀ s ∈ segments, s.entries = [] → s.startOffset ≤ x.offset) :
    ∀ s ∈ appendEntry maxSegmentSize segments x, Bounded s := by
  refine forall_appendEntry h hbounded (fun s hs hbound => ?_) (bounded_new x)
  exact hbound.addEntry (fun e he => hlater e (mem_log_of_mem hs he)) (hempty s hs)

theorem appendEntry_filled {maxSegmentSize : Nat} (x : CompactedEntry)
    (h : segments ≠ [] ∨ 0 < maxSegmentSize) (hfilled : ∀ s ∈ segments, s.entries ≠ []) :
    ∀ s ∈ appendEntry maxSegmentSize segments x, s.entries ≠ [] := by
  have hnew : ∀ s : LogSegment, (s.addEntry x).entries ≠ [] := by
    simp [LogSegment.addEntry]
  exact forall_appendEntry h hfilled (fun s _ _ => hnew s) (hnew _)

/-! ### The rebuilt segments -/

section Rebuild

variable {maxSegmentSize : Nat} (hroom : 0 < maxSegmentSize)
include hroom

theorem rebuild_singleton (x : CompactedEntry) :
    rebuild maxSegmentSize [x] = [(LogSegment.new 0).addEntry x] := by
  have hfresh := appendEntry_concat maxSegmentSize [] (LogSegment.new 0) x
  rw [if_neg (by simpa [LogSegment.new] using Nat.ne_of_gt hroom)] at hfresh
  exact (rebuild_concat maxSegmentSize [] x).trans hfresh

/-- No segment is left empty. -/
theorem rebuild_filled (hentries : entries ≠ []) :
    ∀ s ∈ rebuild maxSegmentSize entries, s.entries ≠ [] := by
  induction entries using List.reverseRecOn with
  | nil => exact absurd rfl hentries
  | append_singleton entries x ih =>
      by_cases hfirst : entries = []
      · subst hfirst
        rw [List.nil_append, rebuild_singleton hroom]
        simp [LogSegment.addEntry]
      · rw [rebuild_concat]
        exact appendEntry_filled x (.inl (rebuild_ne_nil _ _)) (ih hfirst)

/-- The first segment starts at offset zero and holds the first entry. -/
theorem rebuild_head (hhead : entries.head? = some e) :
    ∃ s ∈ rebuild maxSegmentSize entries, s.startOffset = 0 ∧ e ∈ s.entries := by
  induction entries using List.reverseRecOn with
  | nil => cases hhead
  | append_singleton entries x ih =>
      by_cases hfirst : entries = []
      · subst hfirst
        cases hhead
        rw [List.nil_append, rebuild_singleton hroom]
        exact ⟨_, List.mem_singleton_self _, rfl, by simp [LogSegment.addEntry]⟩
      · rw [List.head?_append_of_ne_nil _ hfirst] at hhead
        obtain ⟨s, hs, hstart, he⟩ := ih hhead
        rw [rebuild_concat]
        rcases appendEntry_cases x (.inl (rebuild_ne_nil maxSegmentSize entries)) with
          ⟨full, current, hfull, heq⟩ | heq
        · -- the first segment may be the one that grows
          rw [heq]
          rw [hfull, List.mem_append, List.mem_singleton] at hs
          rcases hs with hs | rfl
          · exact ⟨s, List.mem_append_left _ hs, hstart, he⟩
          · exact ⟨s.addEntry x, List.mem_append_right _ (List.mem_singleton_self _), hstart,
              List.mem_append_left _ he⟩
        · rw [heq]
          exact ⟨s, List.mem_append_left _ hs, hstart, he⟩

/-- Rebuilt from increasing offsets, from zero on, the segments are within their bounds. -/
theorem rebuild_bounded (hascending : Ascending entries) (hpos : ∀ e ∈ entries, 0 ≤ e.offset) :
    ∀ s ∈ rebuild maxSegmentSize entries, Bounded s := by
  induction entries using List.reverseRecOn with
  | nil =>
      intro s hs
      cases List.mem_singleton.mp hs
      exact fun e he => absurd he List.not_mem_nil
  | append_singleton entries x ih =>
      obtain ⟨hbefore, hlater⟩ := ascending_concat.mp hascending
      have hold := ih hbefore fun e he => hpos e (List.mem_append_left _ he)
      rw [rebuild_concat]
      refine appendEntry_bounded (.inl (rebuild_ne_nil _ _)) hold ?_ fun s hs hempty => ?_
      · rwa [log_rebuild]
      · -- only the segment that the loop starts with can be empty
        by_cases hfirst : entries = []
        · subst hfirst
          cases List.mem_singleton.mp hs
          exact hpos x (List.mem_append_right _ (List.mem_singleton_self x))
        · exact absurd hempty (rebuild_filled hroom hfirst s hs)

/-- **What rebuilding needs.**  The entries come by increasing offset, from zero on. -/
theorem ordered_rebuild_iff :
    Ordered (rebuild maxSegmentSize entries) ↔
      Ascending entries ∧ ∀ e ∈ entries, 0 ≤ e.offset := by
  constructor
  · rintro ⟨hascending, hbounded⟩
    rw [log_rebuild] at hascending
    refine ⟨hascending, ?_⟩
    cases entries with
    | nil => exact fun e he => absurd he List.not_mem_nil
    | cons first rest =>
        obtain ⟨s, hs, hstart, hfirst⟩ :=
          rebuild_head hroom (show (first :: rest).head? = some first from rfl)
        have hpos : 0 ≤ first.offset := hstart ▸ (hbounded s hs first hfirst).1
        intro e he
        rcases List.mem_cons.mp he with rfl | hrest
        · exact hpos
        · have hlater := (List.pairwise_cons.mp hascending).1 e hrest
          exact Int64.le_trans hpos (Std.le_of_lt hlater)
  · rintro ⟨hascending, hpos⟩
    refine ⟨?_, rebuild_bounded hroom hascending hpos⟩
    rwa [log_rebuild]

end Rebuild

/-! ### The latest entries of a log in order -/

/-- The last entry of a key. -/
def newest (entries : List CompactedEntry) (k : String) : Option CompactedEntry :=
  (entries.filter fun e => e.key = k).getLast?

theorem newest_concat (entries : List CompactedEntry) (x : CompactedEntry) (k : String) :
    newest (entries ++ [x]) k = if k = x.key then some x else newest entries k := by
  rw [newest, List.filter_append]
  by_cases hk : k = x.key
  · rw [if_pos hk, List.filter_cons_of_pos (by simpa using hk.symm)]
    exact List.getLast?_concat
  · rw [if_neg hk, List.filter_cons_of_neg (by simpa using fun h => hk h.symm), List.filter_nil,
      List.append_nil]
    rfl

theorem mem_of_newest {k : String} (h : newest entries k = some e) : e ∈ entries :=
  List.mem_of_mem_filter (List.mem_of_getLast? h)

/-- In a log in order, the latest entry of a key is its last one. -/
theorem lookup_foldl_of_ascending (h : Ascending entries) (k : String) :
    (entries.foldl keepLatestTurn ∅).lookup k = newest entries k := by
  induction entries using List.reverseRecOn with
  | nil => rfl
  | append_singleton entries x ih =>
      obtain ⟨hbefore, hlater⟩ := ascending_concat.mp h
      rw [List.foldl_append, List.foldl_cons, List.foldl_nil, lookup_keepLatestTurn,
        newest_concat, ih hbefore]
      by_cases hk : k = x.key
      · rw [if_pos hk, if_pos ⟨hk, fun e he => hlater e (mem_of_newest he)⟩]
      · rw [if_neg hk, if_neg fun hnew => hk hnew.1]

theorem survivors_of_ascending (h : Ascending (log segments)) (order : List String) :
    survivors order segments = order.filterMap (newest (log segments)) := by
  rw [survivors, HashMap.map_snd_iter, latestEntries_eq]
  exact congrArg (fun f => order.filterMap f) (funext fun k => lookup_foldl_of_ascending h k)

/-- The order takes the keys by the offsets of their last entries, which are not negative. -/
structure InOrder (order : List String) (entries : List CompactedEntry) : Prop where
  ascending : order.Pairwise fun k k' =>
    ∀ e ∈ newest entries k, ∀ e' ∈ newest entries k', e.offset < e'.offset
  nonneg : ∀ k ∈ order, ∀ e ∈ newest entries k, 0 ≤ e.offset

/-- **What KeepLatest needs.** -/
theorem ordered_compactKeepLatest_iff {maxSegmentSize : Nat} (hroom : 0 < maxSegmentSize)
    {order : List String} (h : Ascending (log segments)) :
    Ordered (compactKeepLatest maxSegmentSize order segments) ↔ InOrder order (log segments) := by
  have hsurvivors := survivors_of_ascending h order
  have hinOrder : Ascending (survivors order segments) ∧
      (∀ e ∈ survivors order segments, 0 ≤ e.offset) ↔ InOrder order (log segments) := by
    rw [hsurvivors, Ascending, List.pairwise_filterMap]
    simp only [List.mem_filterMap]
    constructor
    · rintro ⟨hascending, hpos⟩
      exact ⟨hascending, fun k hk e he => hpos e ⟨k, hk, he⟩⟩
    · rintro ⟨hascending, hpos⟩
      refine ⟨hascending, ?_⟩
      rintro e ⟨k, hk, he⟩
      exact hpos k hk e he
  rw [← hinOrder, compactKeepLatest_eq]
  split
  · rename_i hempty
    rw [survivors_eq_nil hempty]
    refine iff_of_true ⟨List.Pairwise.nil, ?_⟩ ⟨List.Pairwise.nil, ?_⟩
    · exact fun s hs => absurd hs List.not_mem_nil
    · exact fun e he => absurd he List.not_mem_nil
  · exact ordered_rebuild_iff hroom

theorem compactKeepLatest_filled {maxSegmentSize : Nat} (hroom : 0 < maxSegmentSize)
    {order : List String} (horder : HashMap.Enumerates order (latestEntries segments)) :
    ∀ s ∈ compactKeepLatest maxSegmentSize order segments, s.entries ≠ [] := by
  rw [compactKeepLatest_eq]
  split
  · exact fun s hs => absurd hs List.not_mem_nil
  · rename_i hne
    refine rebuild_filled hroom fun hempty => hne ?_
    have hkeys := map_key_survivors horder
    rw [hempty, List.map_nil] at hkeys
    apply Finmap.ext_lookup
    intro k
    rw [Finmap.lookup_empty, Finmap.lookup_eq_none, ← horder.mem_iff, ← hkeys]
    exact List.not_mem_nil

/-! ### Dropping old entries -/

theorem log_dropBefore (cutoff : SystemTime) (segments : List LogSegment) :
    log (dropBefore cutoff segments) =
      (log segments).filter fun e => cutoff.nanos ≤ e.timestamp.nanos := by
  induction segments with
  | nil => rfl
  | cons s segments ih =>
      have hcons : log (s :: segments) = s.entries ++ log segments := List.flatMap_cons
      rw [hcons, List.filter_append, ← ih, dropBefore, List.map_cons, List.filter_cons]
      split
      · exact List.flatMap_cons
      · rename_i hempty
        have hgone : (s.entries.filter fun e => cutoff.nanos ≤ e.timestamp.nanos) = [] := by
          simpa [LogSegment.retainFrom] using hempty
        rw [hgone, List.nil_append, dropBefore]

theorem Ordered.dropBefore (h : Ordered segments) (cutoff : SystemTime) :
    Ordered (dropBefore cutoff segments) := by
  refine ⟨?_, fun s hs => ?_⟩
  · rw [log_dropBefore]
    exact h.ascending.filter _
  · obtain ⟨g, hg, rfl⟩ := List.mem_map.mp (List.mem_of_mem_filter hs)
    exact fun e he => h.bounded g hg e (List.mem_of_mem_filter he)

theorem dropBefore_filled (cutoff : SystemTime) (segments : List LogSegment) :
    ∀ s ∈ dropBefore cutoff segments, s.entries ≠ [] := by
  intro s hs
  simpa using (List.mem_filter.mp hs).2

/-! ### Runs on one partition -/

/-- A manager, with the greatest offset that has been appended so far. -/
structure Run where
  manager : LogCompactionManager
  last : Option Int64

/-- One call on the partition, with what the environment chooses: the clock, and the order
in which the map iterates. -/
inductive CompactionOp where
  | append (key : String) (value : List UInt8) (offset : Int64) (now : SystemTime)
  | compactPartition (order : List String) (now : SystemTime)

/-- A call on the partition `partitionId`. -/
def Run.step (partitionId : Int32) (s : Run) : CompactionOp → Run
  | .append key value offset now =>
      { manager := s.manager.append partitionId key value offset now, last := some offset }
  | .compactPartition order now =>
      { s with manager := (s.manager.compactPartition partitionId order now).2 }

/-- The segments of the partition. -/
def segmentsOf (m : LogCompactionManager) (partitionId : Int32) : List LogSegment :=
  (m.segments.lookup partitionId).getD []

/-- The segments whose latest entries a compaction collects, if it collects any: those of
the partition under KeepLatest, those within the window under Hybrid. -/
def collected (m : LogCompactionManager) (partitionId : Int32) (now : SystemTime) :
    Option (List LogSegment) :=
  (m.segments.lookup partitionId).bind fun segments =>
    match m.strategy with
    | .keepLatest => some segments
    | .timeWindow _ => none
    | .hybrid duration => compactTimeWindow duration now segments

/-- The time before which a compaction drops entries, if its strategy has a window and the
subtraction does not panic. -/
def cutoffTime (m : LogCompactionManager) (now : SystemTime) : Option SystemTime :=
  m.strategy.window.bind fun window => now.sub window

/-- The segments of the partition that a compaction leaves before it collects. -/
def windowed (m : LogCompactionManager) (partitionId : Int32) (now : SystemTime) :
    List LogSegment :=
  match m.cutoffTime now with
  | some cutoffTime => dropBefore cutoffTime (m.segmentsOf partitionId)
  | none => m.segmentsOf partitionId

/-- What the caller and the map promise: appended offsets increase, and an iteration goes
through the map. -/
def Run.Lawful (partitionId : Int32) (s : Run) : CompactionOp → Prop
  | .append _ _ offset _ => ∀ o ∈ s.last, o < offset
  | .compactPartition order now =>
      ∀ kept ∈ s.manager.collected partitionId now,
        HashMap.Enumerates order (latestEntries kept)

instance (partitionId : Int32) (s : Run) :
    ∀ op, Decidable (Run.Lawful partitionId s op)
  | .append _ _ _ _ => Option.decidableForallMem s.last
  | .compactPartition _ now => Option.decidableForallMem (s.manager.collected partitionId now)

/-- A compaction that rebuilds takes the latest entries in order. -/
def Run.TakesInOrder (partitionId : Int32) (s : Run) : CompactionOp → Prop
  | .append .. => True
  | .compactPartition order now =>
      ∀ kept ∈ s.manager.collected partitionId now, InOrder order (log kept)

/-- What holds in every run, in order or not. -/
structure Run.Tidy (partitionId : Int32) (s : Run) : Prop where
  room : 0 < s.manager.maxSegmentSize
  filled : ∀ g ∈ s.manager.segmentsOf partitionId, g.entries ≠ []
  recorded : ∀ e ∈ log (s.manager.segmentsOf partitionId), ∃ o ∈ s.last, e.offset ≤ o

theorem segmentsOf_append (m : LogCompactionManager) (partitionId : Int32) (key : String)
    (value : List UInt8) (offset : Int64) (now : SystemTime) :
    (m.append partitionId key value offset now).segmentsOf partitionId =
      appendEntry m.maxSegmentSize (m.segmentsOf partitionId) ⟨key, value, offset, now⟩ := by
  rw [segmentsOf, append]
  simp only [Finmap.lookup_insert, Option.getD_some]
  rfl

/-- **What a compaction does.**  It keeps the entries within the window, if there is one,
and then rebuilds if the strategy collects the latest. -/
theorem compactPartition_cases (m : LogCompactionManager) (partitionId : Int32)
    (order : List String) (now : SystemTime) :
    (m.compactPartition partitionId order now).2.maxSegmentSize = m.maxSegmentSize ∧
      ((m.collected partitionId now = some (m.windowed partitionId now) ∧
        (m.compactPartition partitionId order now).2.segmentsOf partitionId =
          compactKeepLatest m.maxSegmentSize order (m.windowed partitionId now)) ∨
      (m.collected partitionId now = none ∧
        (m.compactPartition partitionId order now).2.segmentsOf partitionId =
          m.windowed partitionId now)) := by
  unfold compactPartition collected windowed cutoffTime segmentsOf
  cases hlookup : m.segments.lookup partitionId with
  | none =>
      refine ⟨rfl, .inr ⟨rfl, ?_⟩⟩
      cases m.strategy.window.bind fun window => now.sub window with
      | none => simp [hlookup]
      | some cutoff => simp [hlookup, dropBefore]
  | some segments =>
      unfold compactSegments
      cases hstrategy : m.strategy with
      | keepLatest => exact ⟨rfl, .inl ⟨rfl, by simp [CompactionStrategy.window]⟩⟩
      | timeWindow duration =>
          cases hcutoff : now.sub duration with
          | none => simp [compactTimeWindow, CompactionStrategy.window, hcutoff, hlookup]
          | some cutoff => simp [compactTimeWindow, CompactionStrategy.window, hcutoff]
      | hybrid duration =>
          cases hcutoff : now.sub duration with
          | none =>
              simp [compactHybrid, compactTimeWindow, CompactionStrategy.window, hcutoff, hlookup]
          | some cutoff =>
              simp [compactHybrid, compactTimeWindow, CompactionStrategy.window, hcutoff]

/-- Nothing is left but what was there and what a window leaves of it. -/
theorem windowed_cases (m : LogCompactionManager) (partitionId : Int32) (now : SystemTime) :
    m.windowed partitionId now = m.segmentsOf partitionId ∨
      ∃ cutoff, m.windowed partitionId now = dropBefore cutoff (m.segmentsOf partitionId) := by
  unfold windowed
  split
  · exact .inr ⟨_, rfl⟩
  · exact .inl rfl

/-- **Step lemma.** -/
theorem Run.Tidy.step {partitionId : Int32} {s : Run} {op : CompactionOp}
    (h : s.Tidy partitionId) (hop : s.Lawful partitionId op) :
    (s.step partitionId op).Tidy partitionId := by
  cases op with
  | append key value offset now =>
      refine ⟨h.room, ?_, ?_⟩
      · show ∀ g ∈ segmentsOf (s.manager.append partitionId key value offset now) partitionId, _
        rw [segmentsOf_append]
        exact appendEntry_filled _ (.inr h.room) h.filled
      · show ∀ e ∈ log (segmentsOf (s.manager.append partitionId key value offset now) partitionId),
          ∃ o ∈ some offset, e.offset ≤ o
        rw [segmentsOf_append, log_appendEntry _ (.inr h.room)]
        intro e he
        refine ⟨offset, rfl, ?_⟩
        rcases List.mem_append.mp he with hold | hnew
        · obtain ⟨o, ho, hle⟩ := h.recorded e hold
          exact Int64.le_trans hle (Std.le_of_lt (hop o ho))
        · rw [List.mem_singleton.mp hnew]
          exact Int64.le_refl _
  | compactPartition order now =>
      obtain ⟨hroom, hcases⟩ := compactPartition_cases s.manager partitionId order now
      have hkept := s.manager.windowed_cases partitionId now
      generalize s.manager.windowed partitionId now = kept at hkept hcases
      -- whatever is kept was there before
      have hfilled : ∀ g ∈ kept, g.entries ≠ [] := by
        rcases hkept with rfl | ⟨cutoff, rfl⟩
        · exact h.filled
        · exact dropBefore_filled cutoff _
      have hrecorded : ∀ e ∈ log kept, ∃ o ∈ s.last, e.offset ≤ o := by
        rcases hkept with rfl | ⟨cutoff, rfl⟩
        · exact h.recorded
        · rw [log_dropBefore]
          exact fun e he => h.recorded e (List.mem_of_mem_filter he)
      refine ⟨hroom ▸ h.room, ?_, ?_⟩
      · show ∀ g ∈ segmentsOf (s.manager.compactPartition partitionId order now).2 partitionId, _
        rcases hcases with ⟨hcollected, heq⟩ | ⟨-, heq⟩
        · rw [heq]
          exact compactKeepLatest_filled h.room (hop kept hcollected)
        · rw [heq]
          exact hfilled
      · show ∀ e ∈ log (segmentsOf (s.manager.compactPartition partitionId order now).2
          partitionId), ∃ o ∈ s.last, e.offset ≤ o
        rcases hcases with ⟨hcollected, heq⟩ | ⟨-, heq⟩
        · rw [heq, log_compactKeepLatest]
          intro e he
          obtain ⟨i, hi, -⟩ := (mem_survivors (hop kept hcollected)).mp he
          exact hrecorded e (List.mem_of_getElem? hi)
        · rw [heq]
          exact hrecorded

/-- **Which calls keep the log in order.** -/
theorem ordered_step_iff {partitionId : Int32} {s : Run} {op : CompactionOp}
    (h : s.Tidy partitionId) (hop : s.Lawful partitionId op)
    (hordered : Ordered (s.manager.segmentsOf partitionId)) :
    Ordered ((s.step partitionId op).manager.segmentsOf partitionId) ↔
      s.TakesInOrder partitionId op := by
  cases op with
  | append key value offset now =>
      refine iff_of_true ?_ trivial
      show Ordered (segmentsOf (s.manager.append partitionId key value offset now) partitionId)
      rw [segmentsOf_append]
      have hlater : ∀ e ∈ log (s.manager.segmentsOf partitionId), e.offset < offset := by
        intro e he
        obtain ⟨o, ho, hle⟩ := h.recorded e he
        exact Std.lt_of_le_of_lt hle (hop o ho)
      refine ⟨?_, appendEntry_bounded (.inr h.room) hordered.bounded hlater ?_⟩
      · rw [log_appendEntry _ (.inr h.room)]
        exact ascending_concat.mpr ⟨hordered.ascending, hlater⟩
      · exact fun g hg hempty => absurd hempty (h.filled g hg)
  | compactPartition order now =>
      obtain ⟨-, hcases⟩ := compactPartition_cases s.manager partitionId order now
      have hkept := s.manager.windowed_cases partitionId now
      generalize s.manager.windowed partitionId now = kept at hkept hcases
      have hkeptOrdered : Ordered kept := by
        rcases hkept with rfl | ⟨cutoff, rfl⟩
        · exact hordered
        · exact hordered.dropBefore cutoff
      show Ordered (segmentsOf (s.manager.compactPartition partitionId order now).2 partitionId) ↔
        ∀ kept ∈ s.manager.collected partitionId now, InOrder order (log kept)
      rcases hcases with ⟨hcollected, heq⟩ | ⟨hcollected, heq⟩
      · rw [heq, hcollected, ordered_compactKeepLatest_iff h.room hkeptOrdered.ascending]
        simp
      · rw [heq, hcollected]
        exact iff_of_true hkeptOrdered (by simp)

/-- A manager nothing has been appended to. -/
def Run.init (strategy : CompactionStrategy) : Run := { manager := new strategy, last := none }

/-- **When the log stays in order.**  Under every strategy, in every run of appends with
increasing offsets and compactions, whatever the clock and the iteration orders, the log
is in order and its segments within their bounds throughout, exactly if every compaction
that rebuilds takes the latest entries by increasing offset, from zero on. -/
theorem in_order_iff (partitionId : Int32) (strategy : CompactionStrategy)
    (ops : List CompactionOp)
    (hops : Along (Run.step partitionId) (Run.Lawful partitionId) (Run.init strategy) ops) :
    Always (Run.step partitionId) (fun s => Ordered (s.manager.segmentsOf partitionId))
      (Run.init strategy) ops ↔
    Along (Run.step partitionId) (Run.TakesInOrder partitionId) (Run.init strategy) ops := by
  have hnone : (Run.init strategy).manager.segmentsOf partitionId = [] := rfl
  refine always_iff_along hops (I := Run.Tidy partitionId)
    ⟨show 0 < 1024 * 1024 * 100 by decide, ?_, ?_⟩ ?_
    (fun _ _ h hop => h.step hop) fun _ _ h hop hordered => ordered_step_iff h hop hordered
  · rw [hnone]
    exact fun g hg => absurd hg List.not_mem_nil
  · rw [hnone]
    exact fun e he => absurd he List.not_mem_nil
  · rw [hnone]
    exact ⟨List.Pairwise.nil, fun g hg => absurd hg List.not_mem_nil⟩

/-- Two entries under different keys, and a compaction. -/
def twoKeys (order : List String) : List CompactionOp :=
  [.append "a" [1] 0 .unixEpoch, .append "b" [2] 1 .unixEpoch,
    .compactPartition order .unixEpoch]

theorem in_order_iff_twoKeys :
    Along (Run.step 0) (Run.Lawful 0) (Run.init .keepLatest) (twoKeys ["a", "b"]) ∧
    (Always (Run.step 0) (fun s => Ordered (s.manager.segmentsOf 0)) (Run.init .keepLatest)
        (twoKeys ["a", "b"]) ↔
      Along (Run.step 0) (Run.TakesInOrder 0) (Run.init .keepLatest) (twoKeys ["a", "b"])) :=
  ⟨by decide +kernel, in_order_iff 0 .keepLatest (twoKeys ["a", "b"]) (by decide +kernel)⟩

/-- A map that iterates the other way puts the later entry first. -/
theorem rebuild_reverses_log :
    Along (Run.step 0) (Run.Lawful 0) (Run.init .keepLatest) (twoKeys ["b", "a"]) ∧
    ¬ Always (Run.step 0) (fun s => Ordered (s.manager.segmentsOf 0)) (Run.init .keepLatest)
      (twoKeys ["b", "a"]) := by
  refine ⟨by decide +kernel, fun h => ?_⟩
  have hlog : log (((twoKeys ["b", "a"]).foldl (Run.step 0)
      (Run.init .keepLatest)).manager.segmentsOf 0) =
      [epochEntry "b" [2] 1, epochEntry "a" [1] 0] := by
    decide +kernel
  have hascending := h.last.ascending
  rw [hlog] at hascending
  exact absurd hascending (by unfold Ascending; decide +kernel)

end LogCompactionManager

end Rafka
