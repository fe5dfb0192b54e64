/-
Rafka/Inventory.lean

What a storage holds (`PartitionQueue` and `Storage` in `crates/storage/src/db.rs`).

A message that has been appended to a partition is in its queue or it is not, and if it is
not there is a reason (`held_or_justified`): since the partition was last opened a cleanup
has found it acknowledged, or a check of the queue has found it too old or too much.
Clocks read from the epoch on, as in `Rafka.Partition`.

`get_metrics` goes through the partitions and adds up their counters (`metrics_exact`).
-/
import Rafka.PolicyChange

namespace Rafka

namespace PartitionRun

/-- A check of the queue at `now` drops the message: when it comes to the front it is too
old, or the queue too large. -/
def Outlived (q : PartitionQueue) (now : EpochTime) (e : MessageEntry) : Prop :=
  ∃ front m behind age, q.messages = front ++ m :: behind ∧ m.unacknowledged = e ∧
    now.durationSince e.timestamp = some age ∧
    (q.retentionPolicy.maxAge < age ∨ q.retentionPolicy.maxBytes < payloadBytes (m :: behind))

/-- The partition has not been opened again in the course of the operations. -/
def StaysOpen (ops : List PartitionOp) : Prop := ∀ policy, PartitionOp.restart policy ∉ ops

/-- Some consumer has acknowledged the offset since the partition was last opened. -/
def Acknowledged (ops : List PartitionOp) (offset : Int64) : Prop :=
  ∃ earlier consumerId since,
    ops = earlier ++ .acknowledge offset consumerId :: since ∧ StaysOpen since

/-- After the operations `before`, this one is a reason for the message to go. -/
def Justifies (policy : RetentionPolicy) (before : List PartitionOp) (e : MessageEntry) :
    PartitionOp → Prop
  | .append payload partitionId now nowEnforce =>
      let q := ((start policy).run before).queue
      Outlived (q.push ⟨q.nextOffset, payload, now, partitionId, ∅⟩) nowEnforce e
  | .acknowledge _ _ => False
  | .cleanupAcknowledged => Acknowledged before e.offset
  | .enforceRetentionPolicy now => Outlived ((start policy).run before).queue now e
  | .restart _ => False

/-- There has been a reason for the message to go since the partition was last opened. -/
def Justified (policy : RetentionPolicy) (ops : List PartitionOp) (e : MessageEntry) : Prop :=
  ∃ before op since, ops = before ++ op :: since ∧ Justifies policy before e op ∧ StaysOpen since

variable {policy : RetentionPolicy} {ops : List PartitionOp} {op : PartitionOp} {e : MessageEntry}

theorem StaysOpen.concat {since : List PartitionOp} (h : StaysOpen since)
    (hop : ∀ policy, op ≠ .restart policy) : StaysOpen (since ++ [op]) := by
  intro policy hmem
  rcases List.mem_append.mp hmem with hold | hnew
  · exact h policy hold
  · exact hop policy (List.mem_singleton.mp hnew).symm

theorem Acknowledged.concat {offset : Int64} (h : Acknowledged ops offset)
    (hop : ∀ policy, op ≠ .restart policy) : Acknowledged (ops ++ [op]) offset := by
  obtain ⟨earlier, consumerId, since, rfl, hopen⟩ := h
  exact ⟨earlier, consumerId, since ++ [op], by simp, hopen.concat hop⟩

theorem Justified.concat (h : Justified policy ops e) (hop : ∀ policy, op ≠ .restart policy) :
    Justified policy (ops ++ [op]) e := by
  obtain ⟨before, reason, since, rfl, hreason, hopen⟩ := h
  exact ⟨before, reason, since ++ [op], by simp, hreason, hopen.concat hop⟩

theorem Justified.now (h : Justifies policy ops e op) : Justified policy (ops ++ [op]) e :=
  ⟨ops, op, [], rfl, h, fun _ => List.not_mem_nil⟩

theorem run_concat (s : PartitionRun) (ops : List PartitionOp) (op : PartitionOp) :
    s.run (ops ++ [op]) = (s.run ops).step op := by
  rw [run, List.foldl_concat, run]

/-! ### Checks -/

/-- A check leaves a message, or has a reason to drop it. -/
theorem unexpired_or_outlived {q : PartitionQueue} {now : EpochTime}
    (he : e ∈ q.messages.map MessageEntry.unacknowledged) :
    e ∈ ((PartitionQueue.check q.retentionPolicy now).unexpired q.messages).map
        MessageEntry.unacknowledged ∨ Outlived q now e := by
  obtain ⟨m, hm, rfl⟩ := List.mem_map.mp he
  obtain ⟨dropped, hdropped⟩ :=
    (PartitionQueue.check q.retentionPolicy now).unexpired_suffix q.messages
  rw [← hdropped, List.mem_append] at hm
  refine hm.symm.imp (List.mem_map_of_mem (f := MessageEntry.unacknowledged)) fun hm => ?_
  obtain ⟨front, behind, rfl⟩ := List.append_of_mem hm
  obtain ⟨age, hage, hlate⟩ := Expiry.Check.expired_of_append hdropped rfl
  refine ⟨front, m, behind ++ (PartitionQueue.check q.retentionPolicy now).unexpired q.messages,
    age, ?_, rfl, hage, hlate⟩
  rw [← List.cons_append, ← List.append_assoc, hdropped]

/-! ### Acknowledgements -/

theorem mem_acknowledgeFirst {offset : Int64} {consumerId : String} {ms : List MessageEntry}
    (h : e ∈ PartitionQueue.acknowledgeFirst offset consumerId ms) : e ∈ ms ∨ e.offset = offset := by
  induction ms with
  | nil => exact absurd h List.not_mem_nil
  | cons m ms ih =>
      rw [PartitionQueue.acknowledgeFirst] at h
      split at h
      · rename_i hoffset
        rcases List.mem_cons.mp h with rfl | hmem
        · exact .inr hoffset
        · exact .inl (List.mem_cons_of_mem m hmem)
      · rcases List.mem_cons.mp h with rfl | hmem
        · exact .inl List.mem_cons_self
        · exact (ih hmem).imp_left (List.mem_cons_of_mem m)

theorem durable_run (policy : RetentionPolicy) (ops : List PartitionOp) :
    ((start policy).run ops).Durable :=
  (durable_start policy).run ops

/-- Who is in the set of a message has acknowledged it since the partition was opened. -/
theorem acknowledged_of_mem (policy : RetentionPolicy) (ops : List PartitionOp)
    (he : e ∈ ((start policy).run ops).queue.messages) (hacks : e.acknowledgedBy ≠ ∅) :
    Acknowledged ops e.offset := by
  induction ops using List.reverseRecOn generalizing e with
  | nil => exact absurd he List.not_mem_nil
  | append_singleton ops op ih =>
      have hdurable := durable_run policy ops
      rw [run_concat] at he
      generalize hs : (start policy).run ops = s at he ih hdurable
      cases op with
      | append payload partitionId now nowEnforce =>
          refine Acknowledged.concat (ih ?_ hacks) (by simp)
          by_cases hmax : s.queue.nextOffset = Int64.maxValue
          · have hnone : s.queue.append payload partitionId now nowEnforce = none := if_pos hmax
            simpa only [step, hnone] using he
          · obtain ⟨kept, hkept, hsome⟩ :=
              PartitionQueue.append_spec payload partitionId now nowEnforce hdurable.size_eq hmax
            simp only [step, hsome] at he
            rcases List.mem_append.mp (hkept.subset he) with hold | hnew
            · exact hold
            · rw [List.mem_singleton.mp hnew] at hacks
              exact absurd rfl hacks
      | acknowledge offset consumerId =>
          rcases mem_acknowledgeFirst he with hold | hoffset
          · exact Acknowledged.concat (ih hold hacks) (by simp)
          · exact ⟨ops, consumerId, [], by rw [hoffset], fun _ => List.not_mem_nil⟩
      | cleanupAcknowledged =>
          exact Acknowledged.concat (ih (List.mem_of_mem_filter he) hacks) (by simp)
      | enforceRetentionPolicy now =>
          obtain ⟨kept, hkept, hsome⟩ :=
            PartitionQueue.enforceRetentionPolicy_spec now hdurable.size_eq
          simp only [step, hsome, Option.getD_some] at he
          exact Acknowledged.concat (ih (hkept.subset he) hacks) (by simp)
      | restart policy' =>
          -- the sets are not in the file
          simp only [step, hdurable.new_eq, Option.getD_some] at he
          exact absurd (hdurable.fresh e he) hacks

/-! ### Losses -/

/-- **A message goes only for a reason.**  Over the life of a partition, with restarts, any
policies and any clock from the epoch on (the file refuses an entry stamped before it): a
message whose append has returned is in the queue, unless since
the partition was last opened a cleanup has come after somebody has acknowledged it, or a
check has come to it that found it older than the policy allows, or the queue from it on
larger. -/
theorem held_or_justified (policy : RetentionPolicy) (ops : List PartitionOp) :
    ∀ e ∈ ((start policy).run ops).history,
      e ∈ ((start policy).run ops).queue.messages.map MessageEntry.unacknowledged ∨
        Justified policy ops e := by
  induction ops using List.reverseRecOn with
  | nil => exact fun e he => absurd he List.not_mem_nil
  | append_singleton ops op ih =>
      have hdurable := durable_run policy ops
      have hacknowledged : ∀ m ∈ ((start policy).run ops).queue.messages, m.acknowledgedBy ≠ ∅ →
          Acknowledged ops m.offset := fun m => acknowledged_of_mem policy ops
      have hjustified : ∀ e, Justifies policy ops e op → Justified policy (ops ++ [op]) e :=
        fun e => Justified.now
      have hstill : ∀ e, Justified policy ops e → (∀ policy', op ≠ .restart policy') →
          Justified policy (ops ++ [op]) e := fun e => Justified.concat
      rw [run_concat]
      simp only [Justifies] at hjustified
      generalize (start policy).run ops = s at ih hdurable hacknowledged hjustified
      have hexact : s.queue.Exact := hdurable.size_eq
      intro e he
      cases op with
      | append payload partitionId now nowEnforce =>
          by_cases hmax : s.queue.nextOffset = Int64.maxValue
          · have hnone : s.queue.append payload partitionId now nowEnforce = none := if_pos hmax
            simp only [step, hnone] at he ⊢
            exact (ih e he).imp_right fun h => hstill e h (by simp)
          · simp only [step, hexact.append payload partitionId now nowEnforce hmax] at he ⊢
            -- the new message is checked with the others
            have hin : e ∈ (s.queue.messages ++ [(⟨s.queue.nextOffset, payload, now, partitionId,
                ∅⟩ : MessageEntry)]).map MessageEntry.unacknowledged ∨ Justified policy ops e := by
              rw [List.map_append, List.mem_append]
              rcases List.mem_append.mp he with hold | hnew
              · exact (ih e hold).imp_left .inl
              · rw [List.mem_singleton.mp hnew]
                exact .inl (.inr (List.mem_singleton_self _))
            rcases hin with hin | hgone
            · exact (unexpired_or_outlived (q := s.queue.push _) hin).imp_right (hjustified e)
            · exact .inr (hstill e hgone (by simp))
      | acknowledge offset consumerId =>
          have hmap := map_acknowledgeFirst MessageEntry.unacknowledged offset consumerId
            s.queue.messages fun _ _ => rfl
          show e ∈ (PartitionQueue.acknowledgeFirst offset consumerId s.queue.messages).map _ ∨ _
          rw [hmap]
          exact (ih e he).imp_right fun h => hstill e h (by simp)
      | cleanupAcknowledged =>
          rcases ih e he with hin | hgone
          · obtain ⟨m, hm, rfl⟩ := List.mem_map.mp hin
            by_cases hacks : m.acknowledgedBy = ∅
            · refine .inl (List.mem_map_of_mem (f := MessageEntry.unacknowledged) ?_)
              exact List.mem_filter.mpr ⟨hm, by simpa using hacks⟩
            · exact .inr (hjustified _ (hacknowledged m hm hacks))
          · exact .inr (hstill e hgone (by simp))
      | enforceRetentionPolicy now =>
          simp only [step, hexact.enforceRetentionPolicy, Option.getD_some] at he ⊢
          rcases ih e he with hin | hgone
          · exact (unexpired_or_outlived hin).imp_right (hjustified e)
          · exact .inr (hstill e hgone (by simp))
      | restart policy' =>
          -- everything is read back from the file
          simp only [step, hdurable.new_eq, Option.getD_some] at he ⊢
          rw [MessageEntry.map_unacknowledged hdurable.fresh]
          exact .inl he

/-- A message is acknowledged, and collected. -/
def oneCollected : List PartitionOp :=
  [.append Storage.helloWorld 0 .unixEpoch .unixEpoch, .acknowledge 0 "consumer",
    .cleanupAcknowledged]

/-- The message is no longer in the queue, so there has been a reason. -/
theorem held_or_justified_oneCollected :
    ((start .default).run oneCollected).queue.messages = [] ∧
      Justified .default oneCollected ⟨0, Storage.helloWorld, .unixEpoch, 0, ∅⟩ := by
  have hempty : ((start .default).run oneCollected).queue.messages = [] := by decide +kernel
  have hmem : ⟨0, Storage.helloWorld, .unixEpoch, 0, ∅⟩ ∈
      ((start .default).run oneCollected).history := by decide +kernel
  refine ⟨hempty, (held_or_justified .default oneCollected _ hmem).resolve_left ?_⟩
  rw [hempty]
  exact List.not_mem_nil

end PartitionRun

namespace Storage

open LockM

/-- All queues of the storage, in no order. -/
def queues (s : Storage) : Multiset PartitionQueue :=
  s.topics.entries.bind fun topic => topic.2.entries.map Sigma.snd

/-- The loops over topics and partitions can go in this order. -/
def GoesThrough (order : List (String × List Int32)) (s : Storage) : Prop :=
  HashMap.Enumerates (order.map Prod.fst) s.topics ∧
    ∀ x ∈ order, ∀ partitions ∈ s.topics.lookup x.1, HashMap.Enumerates x.2 partitions

/-- The queues that the loops come to. -/
def visited (order : List (String × List Int32)) (s : Storage) : List PartitionQueue :=
  order.flatMap fun (topic, partitionIds) => partitionIds.filterMap (s.queue? topic)

/-- What `get_metrics` adds for a queue. -/
def addQueue (m : StorageMetrics) (q : PartitionQueue) : StorageMetrics where
  totalMessages := m.totalMessages + q.messages.length
  totalBytes := m.totalBytes + q.currentSize
  oldestMessage :=
    match q.messages.head? with
    | some first =>
        if first.timestamp.nanos < m.oldestMessage.nanos then first.timestamp
        else m.oldestMessage
    | none => m.oldestMessage

variable {s : Storage} {order : List (String × List Int32)}

theorem GoesThrough.coe_visited (h : GoesThrough order s) :
    (visited order s : Multiset PartitionQueue) = s.queues := by
  -- the queues of a topic, in no order
  let ofTopic (topic : String) : Multiset PartitionQueue :=
    (s.topics.lookup topic).elim 0 fun partitions => partitions.entries.map Sigma.snd
  have hvisited : (visited order s : Multiset PartitionQueue) =
      (order : Multiset (String × List Int32)).bind fun x => ofTopic x.1 := by
    rw [visited, ← Multiset.coe_bind]
    refine Multiset.bind_congr fun x hx => ?_
    obtain ⟨partitions, hpartitions⟩ := Finmap.mem_iff.mp
      (h.1.mem_iff.mp (List.mem_map_of_mem (f := Prod.fst) hx))
    have hqueue : s.queue? x.1 = partitions.lookup := by
      funext partitionId
      rw [queue?, hpartitions, Option.bind_some]
    show (x.2.filterMap (s.queue? x.1) : Multiset PartitionQueue) = ofTopic x.1
    rw [hqueue, (h.2 x hx partitions hpartitions).coe_filterMap_lookup]
    simp only [ofTopic, hpartitions, Option.elim_some]
  have hqueues : s.queues = (s.topics.entries.map Sigma.fst).bind ofTopic := by
    rw [Multiset.bind_map]
    refine Multiset.bind_congr fun x hx => ?_
    have hlookup : s.topics.lookup x.1 = some x.2 := Finmap.lookup_eq_some_iff.mpr hx
    simp only [ofTopic, hlookup, Option.elim_some]
  rw [hvisited, hqueues, ← h.1.coe_eq, ← Multiset.map_coe, Multiset.bind_map]

theorem setQueue_self {topic : String} {partitionId : Int32} {q : PartitionQueue}
    (h : s.queue? topic partitionId = some q) : s.setQueue topic partitionId q = s := by
  obtain ⟨partitions, hpartitions, hlookup⟩ := Option.bind_eq_some_iff.mp h
  rw [setQueue, HashMap.modify, hpartitions]
  dsimp only
  rw [HashMap.insert_self hlookup, HashMap.insert_self hpartitions]

/-- Locks that are free stand in nobody's way: `get_metrics` returns and changes nothing. -/
theorem getMetrics_free (now : EpochTime) (order : List (String × List Int32)) (s : Storage) :
    getMetrics now order .free s = .ok ((visited order s).foldl addQueue ⟨0, 0, now⟩, s) := by
  have hturn (g : Guards StorageLock) (topic : String) (partitionId : Int32)
      (hg : g.admits (.queue topic partitionId .messages) .read = true) (m : StorageMetrics) :
      (onQueue topic partitionId (PartitionQueue.Guarded.addMetrics m) >>=
        fun m' => pure (m'.getD m)) g s =
        .ok ((s.queue? topic partitionId).elim m (addQueue m), s) := by
    rw [bind_run, onQueue]
    cases hq : s.queue? topic partitionId with
    | none => rfl
    | some q =>
        dsimp only
        rw [PartitionQueue.Guarded.addMetrics,
          withLock_run (by rw [Guards.admits_ofQueue]; exact hg), bind_run, get_run]
        show (Except.ok _ : Except (Stop StorageLock) _) = _
        rw [setQueue_self hq]
        rfl
  rw [getMetrics, forEachPartition, withLock_run rfl, visited, List.foldl_flatMap]
  refine foldlM_query (fun m x => ?_) order _
  dsimp only
  rw [withLock_run rfl, List.foldl_filterMap]
  refine foldlM_query (fun m partitionId => ?_) x.2 m
  refine (hturn ((Guards.free.push .topics .read).push (.partitions x.1) .read) x.1 partitionId
    rfl m).trans ?_
  cases s.queue? x.1 partitionId with
  | none => rfl
  | some q => rfl

/-! ### What the metrics say -/

theorem foldl_addQueue (qs : List PartitionQueue) (m : StorageMetrics) :
    (qs.foldl addQueue m).totalMessages =
        m.totalMessages + (qs.map fun q => q.messages.length).sum ∧
      (qs.foldl addQueue m).totalBytes =
        m.totalBytes + (qs.map fun q => q.currentSize).sum := by
  induction qs generalizing m with
  | nil => exact ⟨rfl, rfl⟩
  | cons q qs ih =>
      obtain ⟨hmessages, hbytes⟩ := ih (addQueue m q)
      rw [List.foldl_cons, hmessages, hbytes]
      simp only [addQueue, List.map_cons, List.sum_cons]
      exact ⟨by omega, by omega⟩

/-- The first messages of the queues. -/
def firsts (qs : List PartitionQueue) : List EpochTime :=
  qs.filterMap fun q => q.messages.head?.map fun first => first.timestamp

theorem oldest_addQueue (m : StorageMetrics) (q : PartitionQueue) :
    (addQueue m q).oldestMessage ∈ m.oldestMessage :: firsts [q] ∧
      ∀ t ∈ m.oldestMessage :: firsts [q], (addQueue m q).oldestMessage.nanos ≤ t.nanos := by
  simp only [addQueue, firsts, List.filterMap_cons, List.filterMap_nil]
  cases q.messages.head? with
  | none => simp
  | some first =>
      dsimp only [Option.map_some]
      split
      · rename_i hlt
        refine ⟨by simp, fun t ht => ?_⟩
        rcases List.mem_cons.mp ht with rfl | hfirst
        · exact hlt.le
        · rw [List.mem_singleton.mp hfirst]
      · rename_i hle
        refine ⟨by simp, fun t ht => ?_⟩
        rcases List.mem_cons.mp ht with rfl | hfirst
        · exact le_refl _
        · rw [List.mem_singleton.mp hfirst]
          exact Nat.le_of_not_lt hle

/-- The earliest stamp among the first messages, or the clock if it is behind them all. -/
theorem oldest_foldl_addQueue (qs : List PartitionQueue) (m : StorageMetrics) :
    (qs.foldl addQueue m).oldestMessage ∈ m.oldestMessage :: firsts qs ∧
      ∀ t ∈ m.oldestMessage :: firsts qs,
        (qs.foldl addQueue m).oldestMessage.nanos ≤ t.nanos := by
  induction qs generalizing m with
  | nil => simp [firsts]
  | cons q qs ih =>
      obtain ⟨hmem, hle⟩ := ih (addQueue m q)
      obtain ⟨hmem', hle'⟩ := oldest_addQueue m q
      have hfirsts : firsts (q :: qs) = firsts [q] ++ firsts qs :=
        List.filterMap_append (l := [q])
      rw [List.foldl_cons, hfirsts]
      constructor
      · rcases List.mem_cons.mp hmem with heq | hrest
        · rw [heq]
          rw [← List.cons_append]
          exact List.mem_append_left _ hmem'
        · exact List.mem_cons_of_mem _ (List.mem_append_right _ hrest)
      · intro t ht
        rw [← List.cons_append] at ht
        rcases List.mem_append.mp ht with hhere | hrest
        · exact (hle _ List.mem_cons_self).trans (hle' t hhere)
        · exact hle t (List.mem_cons_of_mem _ hrest)

theorem exact_of_mem_visited {q : PartitionQueue} (hs : s.Exact) (hq : q ∈ visited order s) :
    q.Exact := by
  obtain ⟨⟨topic, partitionIds⟩, -, hmem⟩ := List.mem_flatMap.mp hq
  obtain ⟨partitionId, -, hqueue⟩ := List.mem_filterMap.mp hmem
  exact hs topic partitionId q hqueue

/-- The metrics count the messages of all queues and the bytes of their payloads.  The
oldest message is the earliest of the first messages of the queues, or the reading of the
clock where that is not later. -/
structure Measures (s : Storage) (now : EpochTime) (metrics : StorageMetrics) : Prop where
  totalMessages : metrics.totalMessages = (s.queues.map fun q => q.messages.length).sum
  totalBytes : metrics.totalBytes = (s.queues.map fun q => payloadBytes q.messages).sum
  oldest : metrics.oldestMessage = now ∨
    ∃ q ∈ s.queues, ∃ first ∈ q.messages.head?, metrics.oldestMessage = first.timestamp
  le_now : metrics.oldestMessage.nanos ≤ now.nanos
  le_first : ∀ q ∈ s.queues, ∀ first ∈ q.messages.head?,
    metrics.oldestMessage.nanos ≤ first.timestamp.nanos

/-- No message of a queue in order is older. -/
theorem Measures.le_of_sorted {now : EpochTime} {metrics : StorageMetrics}
    (h : s.Measures now metrics) {q : PartitionQueue} (hq : q ∈ s.queues)
    (hsorted : q.messages.Pairwise fun a b => a.timestamp.nanos ≤ b.timestamp.nanos)
    {e : MessageEntry} (he : e ∈ q.messages) :
    metrics.oldestMessage.nanos ≤ e.timestamp.nanos := by
  have hfirst := h.le_first q hq
  cases hms : q.messages with
  | nil => simp [hms] at he
  | cons first rest =>
      rw [hms] at hsorted he hfirst
      refine (hfirst first rfl).trans ?_
      rcases List.mem_cons.mp he with rfl | hrest
      · exact Nat.le_refl _
      · exact (List.pairwise_cons.mp hsorted).1 e hrest

theorem Exact.measures_foldl (hs : s.Exact) (horder : GoesThrough order s) (now : EpochTime) :
    s.Measures now ((visited order s).foldl addQueue ⟨0, 0, now⟩) := by
  have hqueues := horder.coe_visited
  obtain ⟨hmessages, hbytes⟩ := foldl_addQueue (visited order s) ⟨0, 0, now⟩
  obtain ⟨hmem, hle⟩ := oldest_foldl_addQueue (visited order s) ⟨0, 0, now⟩
  have hsizes : (visited order s).map (fun q => q.currentSize) =
      (visited order s).map fun q => payloadBytes q.messages :=
    List.map_congr_left fun q hq => exact_of_mem_visited hs hq
  constructor
  · rw [← hqueues, Multiset.map_coe, Multiset.sum_coe, hmessages, Nat.zero_add]
  · rw [← hqueues, Multiset.map_coe, Multiset.sum_coe, hbytes, Nat.zero_add, hsizes]
  · rw [← hqueues]
    rcases List.mem_cons.mp hmem with hnow | hfirst
    · exact .inl hnow
    · obtain ⟨q, hq, hstamp⟩ := List.mem_filterMap.mp hfirst
      obtain ⟨first, hhead, heq⟩ := Option.map_eq_some_iff.mp hstamp
      exact .inr ⟨q, hq, first, hhead, heq.symm⟩
  · exact hle now List.mem_cons_self
  · rw [← hqueues]
    intro q hq first hhead
    refine hle _ (List.mem_cons_of_mem _ (List.mem_filterMap.mpr ⟨q, hq, ?_⟩))
    rw [Option.mem_def.mp hhead, Option.map_some]

/-- **The metrics are exact.**  In every reachable state, in whatever order the maps are
iterated, `get_metrics` returns the metrics of the storage and leaves it as it is; the
oldest message is not later than any first message, nor than any message of a queue in
order. -/
theorem metrics_exact (policy : RetentionPolicy) (ops : List StorageOp) (now : EpochTime)
    (order : List (String × List Int32)) (horder : GoesThrough order (reached policy ops)) :
    ∃ metrics, getMetrics now order .free (reached policy ops) =
        .ok (metrics, reached policy ops) ∧
      (reached policy ops).Measures now metrics ∧
      ∀ q ∈ (reached policy ops).queues,
        q.messages.Pairwise (fun a b => a.timestamp.nanos ≤ b.timestamp.nanos) →
        ∀ e ∈ q.messages, metrics.oldestMessage.nanos ≤ e.timestamp.nanos := by
  have hmeasures := (exact_reached policy ops).measures_foldl horder now
  refine ⟨_, getMetrics_free now order _, hmeasures, ?_⟩
  intro q hq hsorted e he
  exact hmeasures.le_of_sorted hq hsorted he

/-- So many seconds after the epoch. -/
def afterSeconds (n : Fin 60) : EpochTime := ⟨n * 10 ^ 9, by have := n.isLt; omega⟩

/-- Two partitions; the clock has stepped back between the messages of the first. -/
def twoPartitions : List StorageOp :=
  [.createTopic "test", .createPartition "test" 0 (some ⟨[]⟩),
    .createPartition "test" 1 (some ⟨[]⟩),
    .call (.append "test" 0 helloWorld (afterSeconds 20) (afterSeconds 20)),
    .call (.append "test" 0 helloWorld (afterSeconds 10) (afterSeconds 10)),
    .call (.append "test" 1 helloWorld (afterSeconds 30) (afterSeconds 30))]

/-- Three messages of eleven bytes; the oldest first one is that of second 20. -/
theorem metrics_exact_twoPartitions :
    GoesThrough [("test", [1, 0])] (reached .default twoPartitions) ∧
      getMetrics (afterSeconds 40) [("test", [1, 0])] .free (reached .default twoPartitions) =
        .ok (⟨3, 33, afterSeconds 20⟩, reached .default twoPartitions) ∧
      (reached .default twoPartitions).Measures (afterSeconds 40) ⟨3, 33, afterSeconds 20⟩ := by
  have horder : GoesThrough [("test", [1, 0])] (reached .default twoPartitions) := by
    unfold GoesThrough
    decide +kernel
  have hmetrics : (visited [("test", [1, 0])] (reached .default twoPartitions)).foldl addQueue
      ⟨0, 0, afterSeconds 40⟩ = ⟨3, 33, afterSeconds 20⟩ := by
    decide +kernel
  have hrun := getMetrics_free (afterSeconds 40) [("test", [1, 0])] (reached .default twoPartitions)
  obtain ⟨metrics, hget, hmeasures, -⟩ :=
    metrics_exact .default twoPartitions (afterSeconds 40) [("test", [1, 0])] horder
  rw [hmetrics] at hrun
  have heq : (metrics, reached .default twoPartitions) =
      (⟨3, 33, afterSeconds 20⟩, reached .default twoPartitions) :=
    Except.ok.inj (hget.symm.trans hrun)
  exact ⟨horder, hrun, (Prod.mk.inj heq).1 ▸ hmeasures⟩

end Storage

end Rafka
