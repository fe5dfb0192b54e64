/-
Rafka/Reclaim.lean

What a compaction removes (`LogCompactionManager` in
`crates/broker/src/compaction.rs`).

Two orders decide what goes.  KeepLatest goes by offsets, a window by the times at which
the entries were appended, and the clock may have stepped back in between: the latest
entry of a key can be the first one to fall out of the window, and an older value is then
the latest that is left (`never_revives_iff`).

The bytes are counted three times: by `add_entry`, by the pass over the window and by the
rebuilding loop.  `accounts_exact` says that the counts agree in every run, and that
`compact_partition` returns the bytes of what it has removed.
-/
import Rafka.Compaction

namespace Rafka

namespace LogCompactionManager

variable {segments : List LogSegment} {entries : List CompactedEntry} {e : CompactedEntry}
variable {k : String}

/-! ### The latest entry, as a place in the log -/

/-- Before the latest entry of a key there are smaller offsets only, after it none that is
greater. -/
theorem isLatest_iff_split :
    IsLatest entries k e ↔ ∃ l₁ l₂, entries = l₁ ++ e :: l₂ ∧ e.key = k ∧
      (∀ e' ∈ l₁, e'.key = k → e'.offset < e.offset) ∧
      ∀ e' ∈ l₂, e'.key = k → e'.offset ≤ e.offset := by
  constructor
  · rintro ⟨i, hi, hkey, hgreatest⟩
    obtain ⟨hlt, rfl⟩ := List.getElem?_eq_some_iff.mp hi
    refine ⟨entries.take i, entries.drop (i + 1), ?_, hkey, fun e' he' hkey' => ?_,
      fun e' he' hkey' => ?_⟩
    · rw [List.getElem_cons_drop, List.take_append_drop]
    · obtain ⟨j, hj, rfl⟩ := List.mem_take_iff_getElem.mp he'
      have hj' : j < i := by omega
      exact (hgreatest j _ (List.getElem?_eq_getElem (by omega)) hkey').2 hj'
    · obtain ⟨j, hj⟩ := List.mem_iff_getElem?.mp (List.mem_of_mem_drop he')
      exact (hgreatest j e' hj hkey').1
  · rintro ⟨l₁, l₂, rfl, hkey, hbefore, hafter⟩
    refine ⟨l₁.length, by simp, hkey, fun j e' hj hkey' => ?_⟩
    rcases Nat.lt_trichotomy j l₁.length with hlt | rfl | hgt
    · rw [List.getElem?_append_left hlt] at hj
      have hless := hbefore e' (List.mem_of_getElem? hj) hkey'
      exact ⟨Std.le_of_lt hless, fun _ => hless⟩
    · rw [List.getElem?_append_right (Nat.le_refl _), Nat.sub_self] at hj
      cases hj
      exact ⟨Int64.le_refl _, fun hlt => absurd hlt (Nat.lt_irrefl _)⟩
    · rw [List.getElem?_append_right (by omega), List.getElem?_cons] at hj
      rw [if_neg (by omega)] at hj
      exact ⟨hafter e' (List.mem_of_getElem? hj) hkey', fun hlt => by omega⟩

theorem IsLatest.mem (h : IsLatest entries k e) : e ∈ entries ∧ e.key = k := by
  obtain ⟨i, hi, hkey, -⟩ := h
  exact ⟨List.mem_of_getElem? hi, hkey⟩

theorem exists_isLatest (h : e ∈ entries) : ∃ latest, IsLatest entries e.key latest := by
  rcases lookup_foldl_keepLatestTurn entries e.key with ⟨-, hfresh⟩ | ⟨latest, -, hlatest⟩
  · exact absurd rfl (hfresh e h)
  · exact ⟨latest, hlatest⟩

/-- The latest entry stays the latest as long as it stays. -/
theorem IsLatest.filter {p : CompactedEntry → Bool} (h : IsLatest entries k e) (he : p e = true) :
    IsLatest (entries.filter p) k e := by
  obtain ⟨l₁, l₂, rfl, hkey, hbefore, hafter⟩ := isLatest_iff_split.mp h
  refine isLatest_iff_split.mpr ⟨l₁.filter p, l₂.filter p, ?_, hkey, fun e' he' => ?_,
    fun e' he' => ?_⟩
  · rw [List.filter_append, List.filter_cons_of_pos he]
  · exact hbefore e' (List.mem_of_mem_filter he')
  · exact hafter e' (List.mem_of_mem_filter he')

/-! ### No old value comes back -/

/-- A key has no entry left, or the greatest-offset entry it had. -/
def NeverRevives (before after : List CompactedEntry) : Prop :=
  ∀ k, (∀ e ∈ after, e.key ≠ k) ∨ ∃ e, IsLatest before k e ∧ IsLatest after k e

/-- The latest entry of a key is the last one to fall out of the window. -/
def LastToExpire (cutoff : SystemTime) (entries : List CompactedEntry) : Prop :=
  ∀ k latest, IsLatest entries k latest → latest.timestamp.nanos < cutoff.nanos →
    ∀ e ∈ entries, e.key = k → e.timestamp.nanos < cutoff.nanos

theorem neverRevives_iff {before after : List CompactedEntry} :
    NeverRevives before after ↔ ∀ k e, IsLatest after k e → IsLatest before k e := by
  constructor
  · intro h k e he
    rcases h k with hnone | ⟨e', hbefore, hafter⟩
    · exact absurd he.mem.2 (hnone e he.mem.1)
    · rwa [he.unique hafter]
  · intro h k
    by_cases hleft : ∃ e ∈ after, e.key = k
    · obtain ⟨e, he, rfl⟩ := hleft
      obtain ⟨latest, hlatest⟩ := exists_isLatest he
      exact .inr ⟨latest, h _ _ hlatest, hlatest⟩
    · refine .inl fun e he hkey => ?_
      exact hleft ⟨e, he, hkey⟩

/-- Which filters bring no old value back. -/
theorem neverRevives_filter_iff {p : CompactedEntry → Bool} :
    NeverRevives entries (entries.filter p) ↔
      ∀ k latest, IsLatest entries k latest → p latest = false →
        ∀ e ∈ entries, e.key = k → p e = false := by
  rw [neverRevives_iff]
  constructor
  · intro h k latest hlatest hgone e he hkey
    by_contra hstays
    -- something of the key is left, and its latest entry is the one that has gone
    have hmem : e ∈ entries.filter p := List.mem_filter.mpr ⟨he, by simpa using hstays⟩
    obtain ⟨left, hleft⟩ := exists_isLatest hmem
    rw [hkey] at hleft
    have hsame : left = latest := (h k left hleft).unique hlatest
    have hkept := (List.mem_filter.mp hleft.mem.1).2
    rw [hsame, hgone] at hkept
    cases hkept
  · intro h k e he
    have hmem := List.mem_filter.mp he.mem.1
    obtain ⟨latest, hlatest⟩ := exists_isLatest hmem.1
    rw [he.mem.2] at hlatest
    cases hstays : p latest with
    | true => rwa [he.unique (hlatest.filter hstays)]
    | false =>
        have hgone := h k latest hlatest hstays e hmem.1 he.mem.2
        rw [hmem.2] at hgone
        cases hgone

/-- The survivors of a collection are the latest entries, and each is the latest of its key. -/
theorem isLatest_survivors_iff {order : List String}
    (horder : HashMap.Enumerates order (latestEntries segments)) :
    IsLatest (survivors order segments) k e ↔ IsLatest (log segments) k e := by
  constructor
  · intro h
    obtain ⟨hmem, rfl⟩ := h.mem
    exact (mem_survivors horder).mp hmem
  · intro h
    obtain ⟨-, rfl⟩ := h.mem
    exact (isLatest_iff_of_nodup (nodup_key_survivors horder)).mpr ((mem_survivors horder).mpr h)

theorem log_windowed (m : LogCompactionManager) (partitionId : Int32) (now : SystemTime) :
    log (m.windowed partitionId now) =
      (log (m.segmentsOf partitionId)).filter fun e =>
        decide (∀ cutoff ∈ m.cutoffTime now, cutoff.nanos ≤ e.timestamp.nanos) := by
  unfold windowed
  cases m.cutoffTime now with
  | none => simp
  | some cutoff =>
      dsimp only
      rw [log_dropBefore]
      simp

/-- **When no old value comes back.**  Whatever has been appended, at whatever times, and
whatever the strategy: after a compaction every key has no entry left or the same
greatest-offset entry as before, exactly if no key has its greatest-offset entry before
the cutoff and another one from the cutoff on. -/
theorem never_revives_iff (m : LogCompactionManager) (partitionId : Int32) (order : List String)
    (now : SystemTime) (horder : ∀ kept ∈ m.collected partitionId now,
      HashMap.Enumerates order (latestEntries kept)) :
    NeverRevives (log (m.segmentsOf partitionId))
        (log ((m.compactPartition partitionId order now).2.segmentsOf partitionId)) ↔
      ∀ cutoff ∈ m.cutoffTime now, LastToExpire cutoff (log (m.segmentsOf partitionId)) := by
  -- collecting the latest entries decides nothing: the window does
  have hwindow : NeverRevives (log (m.segmentsOf partitionId))
        (log ((m.compactPartition partitionId order now).2.segmentsOf partitionId)) ↔
      NeverRevives (log (m.segmentsOf partitionId)) (log (m.windowed partitionId now)) := by
    rw [neverRevives_iff, neverRevives_iff]
    rcases (compactPartition_cases m partitionId order now).2 with ⟨hcollected, heq⟩ | ⟨-, heq⟩
    · rw [heq, log_compactKeepLatest]
      simp only [isLatest_survivors_iff (horder _ hcollected)]
    · rw [heq]
  rw [hwindow, log_windowed, neverRevives_filter_iff]
  cases m.cutoffTime now with
  | none => simp
  | some cutoff => simp [LastToExpire]

/-- 100 seconds after the epoch. -/
def hundredSecs : SystemTime := ⟨100 * 10 ^ 9, by decide, by decide⟩

/-- Two values of one key; the clock has stepped back before the second one. -/
def steppedBack (strategy : CompactionStrategy) : LogCompactionManager :=
  ((new strategy).append 0 "a" [1] 0 hundredSecs).append 0 "a" [2] 1 .unixEpoch

theorem never_revives_iff_steppedBack :
    HashMap.Enumerates ["a"] (latestEntries ((steppedBack .keepLatest).segmentsOf 0)) ∧
    (NeverRevives (log ((steppedBack .keepLatest).segmentsOf 0))
        (log (((steppedBack .keepLatest).compactPartition 0 ["a"] hundredSecs).2.segmentsOf 0)) ↔
      ∀ cutoff ∈ (steppedBack .keepLatest).cutoffTime hundredSecs,
        LastToExpire cutoff (log ((steppedBack .keepLatest).segmentsOf 0))) := by
  have horder : HashMap.Enumerates ["a"]
      (latestEntries ((steppedBack .keepLatest).segmentsOf 0)) := by
    decide +kernel
  refine ⟨horder, never_revives_iff (steppedBack .keepLatest) 0 ["a"] hundredSecs ?_⟩
  intro kept hkept
  have hcollected : (steppedBack .keepLatest).collected 0 hundredSecs =
      some ((steppedBack .keepLatest).segmentsOf 0) := rfl
  rw [hcollected] at hkept
  cases hkept
  exact horder

/-- Within a window of ten seconds the first value is left alone, and comes back. -/
theorem first_value_comes_back :
    HashMap.Enumerates ["a"]
        (latestEntries ((steppedBack (.hybrid (.fromSecs 10))).windowed 0 hundredSecs)) ∧
      ¬ NeverRevives (log ((steppedBack (.hybrid (.fromSecs 10))).segmentsOf 0))
        (log (((steppedBack (.hybrid (.fromSecs 10))).compactPartition 0 ["a"]
          hundredSecs).2.segmentsOf 0)) := by
  refine ⟨by decide +kernel, fun h => ?_⟩
  have hafter : log (((steppedBack (.hybrid (.fromSecs 10))).compactPartition 0 ["a"]
      hundredSecs).2.segmentsOf 0) = [⟨"a", [1], 0, hundredSecs⟩] := by
    decide +kernel
  have hbefore : log ((steppedBack (.hybrid (.fromSecs 10))).segmentsOf 0) =
      [⟨"a", [1], 0, hundredSecs⟩, ⟨"a", [2], 1, .unixEpoch⟩] := by
    decide +kernel
  rw [hafter, hbefore] at h
  rcases h "a" with hnone | ⟨e, ⟨_, -, -, hgreatest⟩, hleft⟩
  · exact hnone _ (List.mem_singleton_self _) rfl
  · obtain rfl := List.mem_singleton.mp hleft.mem.1
    exact absurd (hgreatest 1 _ rfl rfl).1 (by decide +kernel)

/-! ### Bytes -/

/-- The bytes of the values. -/
def valueBytes (entries : List CompactedEntry) : Nat := (entries.map fun e => e.value.length).sum

/-- `size_bytes` is the number of bytes in the segment. -/
def Counted (s : LogSegment) : Prop := s.sizeBytes = valueBytes s.entries

theorem Counted.addEntry {s : LogSegment} (h : Counted s) (x : CompactedEntry) :
    Counted (s.addEntry x) := by
  have hsize : s.sizeBytes = valueBytes s.entries := h
  simp [Counted, LogSegment.addEntry, hsize, valueBytes]

theorem counted_appendEntry {maxSegmentSize : Nat} (x : CompactedEntry)
    (h : segments ≠ [] ∨ 0 < maxSegmentSize) (hcounted : ∀ s ∈ segments, Counted s) :
    ∀ s ∈ appendEntry maxSegmentSize segments x, Counted s := by
  refine forall_appendEntry h hcounted (fun s _ hs => hs.addEntry x) (Counted.addEntry ?_ x)
  rfl

/-- The rebuilding loop counts on from an empty segment. -/
theorem counted_rebuild (maxSegmentSize : Nat) (entries : List CompactedEntry) :
    ∀ s ∈ rebuild maxSegmentSize entries, Counted s := by
  induction entries using List.reverseRecOn with
  | nil =>
      intro s hs
      cases List.mem_singleton.mp hs
      rfl
  | append_singleton entries x ih =>
      rw [rebuild_concat]
      exact counted_appendEntry x (.inl (rebuild_ne_nil _ _)) ih

theorem counted_compactKeepLatest (maxSegmentSize : Nat) (order : List String)
    (segments : List LogSegment) :
    ∀ s ∈ compactKeepLatest maxSegmentSize order segments, Counted s := by
  rw [compactKeepLatest_eq]
  split
  · exact fun s hs => absurd hs List.not_mem_nil
  · exact counted_rebuild maxSegmentSize _

/-- The pass over the window counts what it leaves. -/
theorem counted_dropBefore (cutoff : SystemTime) (segments : List LogSegment) :
    ∀ s ∈ dropBefore cutoff segments, Counted s := by
  intro s hs
  obtain ⟨g, -, rfl⟩ := List.mem_map.mp (List.mem_of_mem_filter hs)
  rfl

theorem sizeOf_eq_valueBytes (h : ∀ s ∈ segments, Counted s) :
    sizeOf segments = valueBytes (log segments) := by
  induction segments with
  | nil => rfl
  | cons s segments ih =>
      have hs : s.sizeBytes = valueBytes s.entries := h s List.mem_cons_self
      have hrest := ih fun g hg => h g (List.mem_cons_of_mem s hg)
      simp only [sizeOf, valueBytes, log] at hs hrest ⊢
      rw [List.map_cons, List.sum_cons, List.flatMap_cons, List.map_append, List.sum_append, hs,
        hrest]

/-! ### What goes and what stays -/

/-- A compaction removes entries and adds none. -/
theorem exists_removed (m : LogCompactionManager) (partitionId : Int32) (order : List String)
    (now : SystemTime) (horder : ∀ kept ∈ m.collected partitionId now,
      HashMap.Enumerates order (latestEntries kept)) :
    ∃ removed, (log ((m.compactPartition partitionId order now).2.segmentsOf partitionId) ++
      removed).Perm (log (m.segmentsOf partitionId)) := by
  have hwindow : (log (m.windowed partitionId now)).Sublist (log (m.segmentsOf partitionId)) := by
    rw [log_windowed]
    exact List.filter_sublist
  -- a latest entry is taken once, and from what the window has left
  have hsubperm : (log ((m.compactPartition partitionId order now).2.segmentsOf
      partitionId)).Subperm (log (m.segmentsOf partitionId)) := by
    rcases (compactPartition_cases m partitionId order now).2 with ⟨hcollected, heq⟩ | ⟨-, heq⟩
    · rw [heq, log_compactKeepLatest]
      have hnodup := nodup_key_survivors (horder _ hcollected)
      refine (List.subperm_of_subset (List.Nodup.of_map _ hnodup) fun e he => ?_).trans
        hwindow.subperm
      exact ((mem_survivors (horder _ hcollected)).mp he).mem.1
    · rw [heq]
      exact hwindow.subperm
  obtain ⟨kept, hkept, hsublist⟩ := hsubperm
  obtain ⟨removed, hremoved⟩ := hsublist.exists_perm_append
  exact ⟨removed, (hkept.symm.append_right removed).trans hremoved.symm⟩

/-! ### Runs -/

/-- A call on one of the partitions. -/
def call (m : LogCompactionManager) : Int32 × CompactionOp → LogCompactionManager
  | (partitionId, .append key value offset now) => m.append partitionId key value offset now
  | (partitionId, .compactPartition order now) => (m.compactPartition partitionId order now).2

/-- An iteration goes through the map. -/
def Iterates (m : LogCompactionManager) : Int32 × CompactionOp → Prop
  | (_, .append ..) => True
  | (partitionId, .compactPartition order now) =>
      ∀ kept ∈ m.collected partitionId now, HashMap.Enumerates order (latestEntries kept)

instance (m : LogCompactionManager) : ∀ c, Decidable (m.Iterates c)
  | (_, .append ..) => .isTrue trivial
  | (partitionId, .compactPartition _ now) =>
      Option.decidableForallMem (m.collected partitionId now)

/-- Every segment counts its bytes. -/
def AllCounted (m : LogCompactionManager) : Prop :=
  ∀ partitionId, ∀ s ∈ m.segmentsOf partitionId, Counted s

/-- A compaction of a partition that exists returns the bytes of what it has removed.  Where
the window reaches back before every `SystemTime`, the subtraction of the clock panics
before anything is done. -/
def Accounts (m : LogCompactionManager) : Int32 × CompactionOp → Prop
  | (_, .append ..) => True
  | (partitionId, .compactPartition order now) =>
      match m.segments.lookup partitionId with
      | none =>
          m.compactPartition partitionId order now =
            (some (.error s!"Partition {partitionId} not found"), m)
      | some segments =>
          if m.strategy.window ≠ none ∧ m.cutoffTime now = none then
            m.compactPartition partitionId order now = (none, m)
          else
            ∃ removed,
              (log ((m.compactPartition partitionId order now).2.segmentsOf partitionId) ++
                removed).Perm (log segments) ∧
              (m.compactPartition partitionId order now).1 = some (.ok (valueBytes removed))

theorem segmentsOf_insert (m : LogCompactionManager) (partitionId q : Int32)
    (segments : List LogSegment) :
    segmentsOf { m with segments := m.segments.insert partitionId segments } q =
      if q = partitionId then segments else m.segmentsOf q := by
  simp only [segmentsOf, HashMap.lookup_insert_eq]
  split
  · rfl
  · rfl

/-- A compaction leaves the other partitions alone. -/
theorem segmentsOf_compactPartition {m : LogCompactionManager} {partitionId q : Int32}
    (hq : q ≠ partitionId) (order : List String) (now : SystemTime) :
    (m.compactPartition partitionId order now).2.segmentsOf q = m.segmentsOf q := by
  unfold compactPartition
  split
  · rfl
  · split
    · rfl
    · rw [segmentsOf_insert, if_neg hq]

theorem compactSegments_eq_none_iff (m : LogCompactionManager) (order : List String)
    (now : SystemTime) (segments : List LogSegment) :
    m.compactSegments order now segments = none ↔
      m.strategy.window ≠ none ∧ m.cutoffTime now = none := by
  unfold compactSegments cutoffTime
  cases m.strategy with
  | keepLatest => simp [CompactionStrategy.window]
  | timeWindow duration => simp [compactTimeWindow, CompactionStrategy.window]
  | hybrid duration => simp [compactHybrid, compactTimeWindow, CompactionStrategy.window]

/-- What a compaction that is not stopped by the clock returns, and leaves. -/
theorem compactPartition_of_clock {m : LogCompactionManager} {partitionId : Int32}
    (hlookup : m.segments.lookup partitionId = some segments) (order : List String)
    (now : SystemTime) (hclock : ¬ (m.strategy.window ≠ none ∧ m.cutoffTime now = none)) :
    (m.compactPartition partitionId order now).1 =
      let after := (m.compactPartition partitionId order now).2.segmentsOf partitionId
      if sizeOf after ≤ sizeOf segments then some (.ok (sizeOf segments - sizeOf after))
      else none := by
  rw [← compactSegments_eq_none_iff m order now segments] at hclock
  obtain ⟨compacted, hcompacted⟩ := Option.ne_none_iff_exists'.mp hclock
  simp only [compactPartition, hlookup, hcompacted, segmentsOf_insert, if_true]

/-- What holds in every run. -/
structure InAccount (m : LogCompactionManager) : Prop where
  room : 0 < m.maxSegmentSize
  counted : m.AllCounted

/-- **Step lemma.** -/
theorem InAccount.call {m : LogCompactionManager} (h : m.InAccount) (c : Int32 × CompactionOp) :
    (m.call c).InAccount := by
  obtain ⟨partitionId, op⟩ := c
  cases op with
  | append key value offset now =>
      refine ⟨h.room, fun q => ?_⟩
      show ∀ s ∈ segmentsOf { m with segments := m.segments.insert partitionId _ } q, Counted s
      rw [segmentsOf_insert]
      split
      · exact counted_appendEntry _ (.inr h.room) (h.counted partitionId)
      · exact h.counted q
  | compactPartition order now =>
      obtain ⟨hroom, hcases⟩ := compactPartition_cases m partitionId order now
      refine ⟨hroom ▸ h.room, fun q => ?_⟩
      show ∀ s ∈ (m.compactPartition partitionId order now).2.segmentsOf q, Counted s
      by_cases hq : q = partitionId
      · subst hq
        rcases hcases with ⟨-, heq⟩ | ⟨-, heq⟩
        · rw [heq]
          exact counted_compactKeepLatest _ _ _
        · rw [heq]
          rcases m.windowed_cases q now with hkept | ⟨cutoff, hkept⟩
          · rw [hkept]
            exact h.counted q
          · rw [hkept]
            exact counted_dropBefore cutoff _
      · rw [segmentsOf_compactPartition hq]
        exact h.counted q

/-- In a manager whose segments count their bytes, a compaction does too. -/
theorem InAccount.accounts {m : LogCompactionManager} (h : m.InAccount)
    {c : Int32 × CompactionOp} (hc : m.Iterates c) : m.Accounts c := by
  obtain ⟨partitionId, op⟩ := c
  cases op with
  | append key value offset now => trivial
  | compactPartition order now =>
      have hcall : (m.compactPartition partitionId order now).2.InAccount :=
        h.call (partitionId, .compactPartition order now)
      cases hlookup : m.segments.lookup partitionId with
      | none => simp only [Accounts, compactPartition, hlookup]
      | some segments =>
          have hsegments : m.segmentsOf partitionId = segments := by
            rw [segmentsOf, hlookup, Option.getD_some]
          simp only [Accounts, hlookup]
          by_cases hclock : m.strategy.window ≠ none ∧ m.cutoffTime now = none
          · rw [if_pos hclock]
            have hnone := (compactSegments_eq_none_iff m order now segments).mpr hclock
            simp only [compactPartition, hlookup, hnone]
          · rw [if_neg hclock]
            obtain ⟨removed, hremoved⟩ := exists_removed m partitionId order now hc
            refine ⟨removed, hsegments ▸ hremoved, ?_⟩
            -- the bytes before are those that are left and those that have gone
            have hbytes : valueBytes (log segments) =
                valueBytes (log ((m.compactPartition partitionId order now).2.segmentsOf
                  partitionId)) + valueBytes removed := by
              rw [← hsegments, valueBytes, ← (hremoved.map _).sum_eq, List.map_append,
                List.sum_append]
              rfl
            have hbefore := sizeOf_eq_valueBytes (hsegments ▸ h.counted partitionId)
            have hafter := sizeOf_eq_valueBytes (hcall.counted partitionId)
            rw [compactPartition_of_clock hlookup order now hclock]
            dsimp only
            rw [hbefore, hafter, hbytes, if_pos (Nat.le_add_right _ _), Nat.add_sub_cancel_left]

/-- **Byte accounting of compaction is exact.**  In every run of appends and compactions on
any partitions, under every strategy, with any clock and any iteration orders, each
segment counts the bytes of its entries, and a compaction returns the bytes of the
entries it has removed. -/
theorem accounts_exact (strategy : CompactionStrategy) (calls : List (Int32 × CompactionOp))
    (hcalls : Along call Iterates (new strategy) calls) :
    Always call AllCounted (new strategy) calls ∧ Along call Accounts (new strategy) calls := by
  have hstart : (new strategy).InAccount := by
    refine ⟨show 0 < 1024 * 1024 * 100 by decide, fun partitionId s hs => ?_⟩
    have hnone : (new strategy).segmentsOf partitionId = [] := rfl
    rw [hnone] at hs
    exact absurd hs List.not_mem_nil
  constructor
  · exact (Always.of_along hstart hcalls fun m c h _ => h.call c).mono fun m h => h.counted
  · exact Along.of_along hstart hcalls (fun m c h _ => h.call c) fun m c h hc => h.accounts hc

/-- Two values of one key and one of another, on two partitions. -/
def threeValues : List (Int32 × CompactionOp) :=
  [(0, .append "a" [1] 0 hundredSecs), (0, .append "a" [2, 2] 1 hundredSecs),
    (1, .append "b" [3] 0 .unixEpoch), (0, .compactPartition ["a"] hundredSecs),
    (1, .compactPartition [] hundredSecs)]

theorem accounts_exact_threeValues :
    Along call Iterates (new (.hybrid (.fromSecs 10))) threeValues ∧
      Always call AllCounted (new (.hybrid (.fromSecs 10))) threeValues ∧
      Along call Accounts (new (.hybrid (.fromSecs 10))) threeValues := by
  have hcalls : Along call Iterates (new (.hybrid (.fromSecs 10))) threeValues := by
    decide +kernel
  exact ⟨hcalls, accounts_exact (.hybrid (.fromSecs 10)) threeValues hcalls⟩

end LogCompactionManager

end Rafka
