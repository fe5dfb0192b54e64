/-
Rafka/Restart.lean

What readers see of a restart (`crates/storage/src/db.rs`).

Cleanup and retention remove messages from the queue of a partition, but the
log file keeps them, and `PartitionQueue::new` brings back whatever the file
holds.  So a restart undoes every removal.

Main result (`restart_invisible_iff`): a restart changes no read of the
partition exactly when, since the partition was last opened, no cleanup has
found an acknowledged message and no retention check an expired one.
-/
import Rafka.Storage

namespace Rafka

/-! ### Reading before and after -/

namespace Storage

/-- What `Storage::read` returns. -/
def readResult (s : Storage) (topic : String) (partitionId : Int32) (startOffset : Int64) :
    Option (List StoredMessage) :=
  match Storage.read topic partitionId startOffset .ideal s with
  | .ok (messages, _) => messages
  | .error _ => none

/-- A storage that has just come up, in which the topic and the partition have
been created over the file `wal`. -/
def recreated (policy : RetentionPolicy) (topic : String) (partitionId : Int32)
    (wal : Option WalLog) : Storage :=
  ((withRetentionPolicy policy).step (.createTopic topic)).step
    (.createPartition topic partitionId wal)

theorem readResult_eq {s : Storage} {topic : String} {partitionId : Int32}
    {q : PartitionQueue} (h : s.queue? topic partitionId = some q) (startOffset : Int64) :
    s.readResult topic partitionId startOffset =
      some ((q.readFrom startOffset 100).map MessageEntry.toStoredMessage) := by
  rw [readResult, read_ideal h]

theorem queue?_recreated {policy : RetentionPolicy} {wal : Option WalLog}
    {q : PartitionQueue} (h : PartitionQueue.new policy wal = some q) (topic : String)
    (partitionId : Int32) :
    (recreated policy topic partitionId wal).queue? topic partitionId = some q := by
  have htopic : (withRetentionPolicy policy).step (.createTopic topic) =
      { withRetentionPolicy policy with
        topics := (withRetentionPolicy policy).topics.insert topic ∅ } := rfl
  rw [recreated, htopic]
  simp only [step, StorageOp.exec, LockM.bind_run, createPartition_ideal,
    Finmap.lookup_insert]
  simp only [withRetentionPolicy, h]
  show ((_ : Storage).setQueue topic partitionId q).queue? topic partitionId = some q
  rw [queue?_setQueue]
  simp

end Storage

/-! ### Steps that remove messages -/

/-- The retention check finds its first message too old, or the queue too
large. -/
def PartitionQueue.Expired (q : PartitionQueue) (now : EpochTime) : Prop :=
  ∃ e ∈ q.messages.head?, ∃ age ∈ now.durationSince e.timestamp,
    age > q.retentionPolicy.maxAge ∨ q.currentSize > q.retentionPolicy.maxBytes

/-- The retention check removes something exactly if it finds the queue
expired. -/
theorem PartitionQueue.length_enforceRetentionPolicy {q q' : PartitionQueue} {now : EpochTime}
    (hq : q.Exact) (h : q.enforceRetentionPolicy now = some q') :
    q'.messages.length ≤ q.messages.length ∧
      (q'.messages.length = q.messages.length ↔ ¬ q.Expired now) := by
  obtain ⟨messages, nextOffset, policy, size, wal⟩ := q
  obtain rfl : size = payloadBytes messages := hq
  simp only [enforceRetentionPolicy, Option.map_eq_some_iff, Prod.exists] at h
  obtain ⟨kept, size', hloop, rfl⟩ := h
  simp only [Expired]
  cases messages with
  | nil =>
      cases hloop
      simp
  | cons e rest =>
      simp only [enforceLoop] at hloop
      cases hage : now.durationSince e.timestamp with
      | none =>
          simp only [hage] at hloop
          cases hloop
          simp [hage]
      | some age =>
          simp only [hage] at hloop
          by_cases hexp : age > policy.maxAge ∨ payloadBytes (e :: rest) > policy.maxBytes
          · -- the first message goes, and the rest can only get shorter
            obtain ⟨kept', hkept', hloop'⟩ := enforceLoop_spec policy now rest
            rw [if_pos hexp, payloadBytes_cons, if_pos (Nat.le_add_right _ _),
              Nat.add_sub_cancel_left, hloop'] at hloop
            cases hloop
            have hlen := hkept'.length_le
            refine ⟨Nat.le_succ_of_le hlen, iff_of_false ?_ ?_⟩
            · simp only [List.length_cons]
              omega
            · exact not_not.mpr ⟨e, rfl, age, hage, hexp⟩
          · rw [if_neg hexp] at hloop
            cases hloop
            refine ⟨Nat.le_refl _, iff_of_true rfl ?_⟩
            rintro ⟨e', he', age', hage', hexp'⟩
            cases he'
            cases hage.symm.trans hage'
            exact hexp hexp'

namespace PartitionRun

/-- The operation removes a message from the queue: a cleanup that finds an
acknowledged one, or a retention check that finds an expired one. -/
def Removes (s : PartitionRun) : PartitionOp → Prop
  | .append payload partitionId now nowEnforce =>
      s.queue.nextOffset ≠ Int64.maxValue ∧
        (s.queue.push ⟨s.queue.nextOffset, payload, now, partitionId, ∅⟩).Expired nowEnforce
  | .acknowledge _ _ => False
  | .cleanupAcknowledged => ∃ e ∈ s.queue.messages, e.acknowledgedBy ≠ ∅
  | .enforceRetentionPolicy now => s.queue.Expired now
  | .restart _ => False

/-- The queue holds the whole history. -/
def Whole (s : PartitionRun) : Prop := s.queue.messages.length = s.history.length

variable {s : PartitionRun}

theorem Durable.length_le (h : s.Durable) : s.queue.messages.length ≤ s.history.length := by
  simpa using h.sublist.length_le

theorem Durable.whole_iff (h : s.Durable) :
    s.Whole ↔ s.queue.messages.map MessageEntry.unacknowledged = s.history := by
  constructor
  · intro hw
    exact h.sublist.eq_of_length ((List.length_map _).trans hw)
  · intro heq
    rw [Whole, ← heq, List.length_map]

theorem length_acknowledgeFirst (offset : Int64) (consumerId : String)
    (es : List MessageEntry) :
    (PartitionQueue.acknowledgeFirst offset consumerId es).length = es.length := by
  have hmap := map_acknowledgeFirst (fun _ => ()) offset consumerId es fun _ _ => rfl
  simpa using congrArg List.length hmap

/-- **Step lemma.**  The queue is whole after an operation exactly if it was
before and the operation removes nothing. -/
theorem Durable.whole_step (h : s.Durable) {op : PartitionOp}
    (hop : ∀ policy, op ≠ .restart policy) :
    (s.step op).Whole ↔ s.Whole ∧ ¬ s.Removes op := by
  have hle := h.length_le
  cases op with
  | append payload partitionId now nowEnforce =>
      by_cases hmax : s.queue.nextOffset = Int64.maxValue
      · have hnone : s.queue.append payload partitionId now nowEnforce = none := if_pos hmax
        simp [PartitionRun.step, hnone, Whole, Removes, hmax]
      · -- the entry is pushed, then the queue is checked
        generalize hpush : s.queue.push ⟨s.queue.nextOffset, payload, now, partitionId, ∅⟩ = q
        have hexact : q.Exact := by
          simp [← hpush, PartitionQueue.Exact, PartitionQueue.push, h.size_eq, payloadBytes]
        have hlen : q.messages.length = s.queue.messages.length + 1 := by
          simp [← hpush, PartitionQueue.push]
        obtain ⟨q', henforce, -⟩ :=
          PartitionQueue.steady_exact.enforceRetentionPolicy q nowEnforce hexact
        obtain ⟨hkept, hiff⟩ := PartitionQueue.length_enforceRetentionPolicy hexact henforce
        have happend : s.queue.append payload partitionId now nowEnforce =
            some (s.queue.nextOffset, q') := by
          rw [PartitionQueue.append, if_neg hmax]
          dsimp only
          rw [hpush, henforce]
          rfl
        simp only [PartitionRun.step, happend, Whole, Removes, hpush, ne_eq, hmax,
          not_false_eq_true, true_and, List.length_append, List.length_singleton]
        rw [← hiff]
        omega
  | acknowledge offset consumerId =>
      simp [PartitionRun.step, Whole, Removes, PartitionQueue.acknowledge,
        length_acknowledgeFirst]
  | cleanupAcknowledged =>
      have hkept := List.length_filter_le (fun e => decide (e.acknowledgedBy = ∅))
        s.queue.messages
      have hall : (s.queue.messages.filter fun e => decide (e.acknowledgedBy = ∅)).length =
          s.queue.messages.length ↔ ¬ s.Removes .cleanupAcknowledged := by
        rw [List.length_filter_eq_length_iff]
        simp [Removes]
      simp only [PartitionRun.step, Whole, PartitionQueue.cleanupAcknowledged]
      rw [← hall]
      omega
  | enforceRetentionPolicy now =>
      obtain ⟨q', henforce, -⟩ :=
        PartitionQueue.steady_exact.enforceRetentionPolicy s.queue now h.size_eq
      obtain ⟨hkept, hiff⟩ := PartitionQueue.length_enforceRetentionPolicy h.size_eq henforce
      simp only [PartitionRun.step, henforce, Option.getD_some, Whole, Removes]
      rw [← hiff]
      omega
  | restart policy => exact absurd rfl (hop policy)

/-! ### Reads -/

/-- Acknowledgements are not visible to readers. -/
theorem readFrom_unacknowledged (q : PartitionQueue) (startOffset : Int64) :
    (q.readFrom startOffset 100).map MessageEntry.toStoredMessage =
      (((q.messages.map MessageEntry.unacknowledged).filter fun e =>
        startOffset ≤ e.offset).take 100).map MessageEntry.toStoredMessage := by
  rw [PartitionQueue.readFrom, List.filter_map, ← List.map_take, List.map_map]
  rfl

/-- The first of the messages from an offset on is read. -/
theorem mem_read_of_mem {es : List MessageEntry} {e : MessageEntry} (he : e ∈ es)
    (hsorted : es.Pairwise fun a b => a.offset < b.offset) :
    e ∈ (es.filter fun e' => e.offset ≤ e'.offset).take 100 := by
  obtain ⟨l₁, l₂, rfl⟩ := List.append_of_mem he
  have hbefore : l₁.filter (fun e' => e.offset ≤ e'.offset) = [] := by
    apply List.filter_eq_nil_iff.mpr
    intro e' he'
    have hlt := (List.pairwise_append.mp hsorted).2.2 e' he' e List.mem_cons_self
    simpa using Int64.not_le.mpr hlt
  rw [List.filter_append, hbefore, List.nil_append, List.filter_cons,
    if_pos (by simp)]
  exact List.mem_cons_self

/-- Readers see the same before and after a restart exactly if the queue holds
the whole history. -/
theorem Durable.reads_eq_iff (h : s.Durable) (hc : s.Counted) {q : PartitionQueue}
    (hq : q.messages = s.history) :
    (∀ startOffset, (s.queue.readFrom startOffset 100).map MessageEntry.toStoredMessage =
        (q.readFrom startOffset 100).map MessageEntry.toStoredMessage) ↔ s.Whole := by
  rw [h.whole_iff]
  constructor
  · intro hread
    have hsorted := hc.numbered.pairwise
    -- every entry of the history is read from its own offset on
    have hsub : s.history ⊆ s.queue.messages.map MessageEntry.unacknowledged := by
      intro e he
      have hmem : e.toStoredMessage ∈
          (q.readFrom e.offset 100).map MessageEntry.toStoredMessage := by
        rw [PartitionQueue.readFrom, hq]
        exact List.mem_map_of_mem (mem_read_of_mem he hsorted)
      rw [← hread, PartitionQueue.readFrom] at hmem
      obtain ⟨e', he', heq⟩ := List.mem_map.mp hmem
      have hfresh := h.fresh e he
      refine List.mem_map.mpr
        ⟨e', (List.mem_filter.mp (List.mem_of_mem_take he')).1, ?_⟩
      simp only [MessageEntry.toStoredMessage, StoredMessage.mk.injEq] at heq
      obtain ⟨hoffset, hpayload, htimestamp, hpartition⟩ := heq
      cases e
      simp_all [MessageEntry.unacknowledged]
    have hnodup : s.history.Nodup := hsorted.imp fun hlt heq => by
      subst heq
      exact Int64.lt_irrefl hlt
    exact h.sublist.eq_of_length_le (hnodup.subperm hsub).length_le
  · intro hwhole startOffset
    rw [readFrom_unacknowledged, hwhole, PartitionQueue.readFrom, hq]

/-! ### When a restart is invisible -/

/-- The queue is whole after a run without restarts exactly if no operation of
it removes a message. -/
theorem Durable.whole_run (h : s.Durable) (hw : s.Whole) {ops : List PartitionOp}
    (hops : ∀ op ∈ ops, ∀ policy, op ≠ .restart policy) :
    (s.run ops).Whole ↔ Along PartitionRun.step (fun s op => ¬ s.Removes op) s ops := by
  -- what is removed stays away
  have hgone : ∀ (ops : List PartitionOp) (s : PartitionRun), s.Durable →
      (∀ op ∈ ops, ∀ policy, op ≠ .restart policy) → ¬ s.Whole → ¬ (s.run ops).Whole := by
    intro ops
    induction ops with
    | nil => exact fun s _ _ hs => hs
    | cons op ops ih =>
        intro s hd hops hs
        apply ih (s.step op) (hd.step op) (fun op' hop' => hops op' (List.mem_cons_of_mem op hop'))
        rw [hd.whole_step (hops op List.mem_cons_self)]
        exact fun hboth => hs hboth.1
  induction ops generalizing s with
  | nil => exact iff_of_true hw trivial
  | cons op ops ih =>
      have hstep := h.whole_step (hops op List.mem_cons_self)
      have hrest : ∀ op' ∈ ops, ∀ policy, op' ≠ .restart policy :=
        fun op' hop' => hops op' (List.mem_cons_of_mem op hop')
      by_cases hrem : s.Removes op
      · refine iff_of_false ?_ fun hal => hal.1 hrem
        exact hgone ops (s.step op) (h.step op) hrest fun hw' => (hstep.mp hw').2 hrem
      · have hih := ih (h.step op) (hstep.mpr ⟨hw, hrem⟩) hrest
        exact hih.trans ⟨fun hal => ⟨hrem, hal⟩, fun hal => hal.2⟩

/-- **A restart is invisible to readers exactly if nothing was removed.**  Take
any life of a partition, after which it is opened (with `policy`), operated on
by `ops` and opened once more by a storage that recreates its topic and
partition.  `Storage::read` returns the same from every offset, before and
after, if and only if none of `ops` is a cleanup that finds an acknowledged
message or makes a retention check that finds an expired one. -/
theorem restart_invisible_iff (policy₀ policy policy' : RetentionPolicy)
    (life ops : List PartitionOp) (hops : ∀ op ∈ ops, ∀ policy, op ≠ .restart policy)
    (topic : String) (partitionId : Int32) (s : Storage)
    (hs : s.queue? topic partitionId =
      some ((start policy₀).run (life ++ .restart policy :: ops)).queue) :
    (∀ startOffset, (Storage.recreated policy' topic partitionId
          ((start policy₀).run (life ++ .restart policy :: ops)).queue.wal).readResult
        topic partitionId startOffset = s.readResult topic partitionId startOffset) ↔
      Along PartitionRun.step (fun s op => ¬ s.Removes op)
        ((start policy₀).run (life ++ [.restart policy])) ops := by
  have hsplit : (start policy₀).run (life ++ .restart policy :: ops) =
      ((start policy₀).run (life ++ [.restart policy])).run ops := by
    simp [run]
  have hd₀ := (durable_start policy₀).run (life ++ [.restart policy])
  -- opened over its file, the partition has its whole history
  have hw₀ : ((start policy₀).run (life ++ [.restart policy])).Whole := by
    have hd := (durable_start policy₀).run life
    have hlast : (start policy₀).run (life ++ [.restart policy]) =
        ((start policy₀).run life).step (.restart policy) := by
      simp [run]
    rw [hlast]
    simp [PartitionRun.step, hd.new_eq, Whole]
  have hd := (durable_start policy₀).run (life ++ .restart policy :: ops)
  have hc := (counted_start policy₀).run (durable_start policy₀)
    (life ++ .restart policy :: ops)
  rw [← hd₀.whole_run hw₀ hops, ← hsplit]
  generalize (start policy₀).run (life ++ .restart policy :: ops) = r at hs hd hc
  have hread := Storage.readResult_eq hs
  have hread' := Storage.readResult_eq
    (Storage.queue?_recreated (hd.new_eq policy') topic partitionId)
  simp only [hread, hread', Option.some.injEq]
  exact (forall_congr' fun _ => eq_comm).trans (hd.reads_eq_iff hc rfl)

/-- Opening an empty file once more changes nothing. -/
theorem run_restart_start (policy policy' : RetentionPolicy) :
    (start policy).run [.restart policy'] = start policy' := by
  have hnew : PartitionQueue.new policy' (start policy).queue.wal = some (start policy').queue :=
    new_empty_file policy'
  simp only [run, List.foldl_cons, List.foldl_nil, PartitionRun.step, hnew, Option.getD_some]
  rfl

/-- One message is appended. -/
def appendRun : List PartitionOp := [.append Storage.helloWorld 0 .unixEpoch .unixEpoch]

/-- A storage that holds the partition after these operations. -/
def storageAfter (ops : List PartitionOp) : Storage :=
  (Storage.recreated .default "test" 0 (some ⟨[]⟩)).setQueue "test" 0
    ((start .default).run (.restart .default :: ops)).queue

theorem queue?_storageAfter (ops : List PartitionOp) :
    (storageAfter ops).queue? "test" 0 =
      some ((start .default).run (.restart .default :: ops)).queue := by
  have hq := Storage.queue?_recreated (new_empty_file .default) "test" 0
  have htopic : ((Storage.recreated .default "test" 0 (some ⟨[]⟩)).topics.lookup
      "test").isSome = true := by
    cases ht : (Storage.recreated .default "test" 0 (some ⟨[]⟩)).topics.lookup "test" with
    | none => simp [Storage.queue?, ht] at hq
    | some _ => rfl
  rw [storageAfter, Storage.queue?_setQueue]
  simp [htopic]

/-- `restart_invisible_iff` at `appendRun`: the message is still there. -/
theorem appendRun_invisible :
    (∀ op ∈ appendRun, ∀ policy, op ≠ .restart policy) ∧
      ∀ startOffset, (Storage.recreated .default "test" 0
          ((start .default).run (.restart .default :: appendRun)).queue.wal).readResult
        "test" 0 startOffset = (storageAfter appendRun).readResult "test" 0 startOffset := by
  have hops : ∀ op ∈ appendRun, ∀ policy, op ≠ .restart policy := by
    simp [appendRun]
  refine ⟨hops, (restart_invisible_iff .default .default .default [] appendRun hops "test" 0
    (storageAfter appendRun) (queue?_storageAfter appendRun)).mpr ⟨?_, trivial⟩⟩
  rw [List.nil_append, run_restart_start]
  -- the message is new and small
  rintro ⟨-, e, he, age, hage, hexp⟩
  cases he
  cases hage
  revert hexp
  decide

/-- The message is acknowledged and cleaned up. -/
def cleanupRun : List PartitionOp :=
  appendRun ++ [.acknowledge 0 "consumer", .cleanupAcknowledged]

/-- After the restart it is back. -/
theorem cleaned_up_message_comes_back :
    (storageAfter cleanupRun).readResult "test" 0 0 = some [] ∧
      (Storage.recreated .default "test" 0
          ((start .default).run (.restart .default :: cleanupRun)).queue.wal).readResult
        "test" 0 0 = some [⟨0, Storage.helloWorld, .unixEpoch, 0⟩] := by
  have hrun : (start .default).run (.restart .default :: cleanupRun) =
      (start .default).run cleanupRun := by
    rw [run, List.foldl_cons]
    exact congrArg (fun s => List.foldl step s cleanupRun) (run_restart_start .default .default)
  have hd := (durable_start .default).run cleanupRun
  rw [Storage.readResult_eq (queue?_storageAfter cleanupRun), hrun,
    Storage.readResult_eq (Storage.queue?_recreated (hd.new_eq .default) "test" 0)]
  decide

end PartitionRun

end Rafka
