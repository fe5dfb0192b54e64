/-
Rafka/Log.lean

The storage as a family of append-only logs.

To the broker a partition is a log: the list of the payloads ever appended,
in which a message is found at its offset.  `LogStore` keeps one log per
topic and partition; appending to a topic or partition that does not exist
is refused and changes nothing.

The link to the storage, with locking left out: a queue `Keeps` a log if its
counter is the length of the log and every message still in it is the one at
its offset, and a `Storage` `Refines` a `LogStore` if they have the same
topics and each queue keeps the log in its place.  Retention, cleanup and
acknowledgements do not touch the log, an append extends it, and a partition
comes back from its file with the log that was written there.  Main results:
the refinement holds along every run (`refines_reached`), an append returns
what the log returns (`Refines.append`) and a read finds nothing but what is
in the log (`Refines.read`).
-/
import Rafka.Storage

namespace Rafka

/-- The payloads ever appended, the one at offset `i` in position `i`. -/
abbrev Log := List (List UInt8)

/-- Append a payload; it gets the next offset. -/
def Log.append (log : Log) (payload : List UInt8) : Int64 × Log :=
  (Int64.ofNat log.length, log ++ [payload])

/-! ### The queue and its log -/

/-- The message at an offset of the log. -/
def Log.Found (log : Log) (offset : Int64) (payload : Payload) : Prop :=
  ∃ i : Nat, offset.toInt = i ∧ log[i]? = some payload.bytes

/-- The log that `PartitionQueue::new` finds in a file. -/
def Log.recovered : Option WalLog → Log
  | none => []
  | some w =>
      match w.readAll with
      | .ok entries => entries.map fun e => e.payload.bytes
      | .error _ => []

/-- What can be read of a file is numbered from zero on, and the counter has
room for it. -/
def Log.Sound : Option WalLog → Prop
  | none => True
  | some w =>
      match w.readAll with
      | .ok entries =>
          PartitionRun.Numbered 0 entries ∧ ∀ e ∈ entries, e.offset ≠ Int64.maxValue
      | .error e => e ≠ .capacityOverflow

namespace PartitionQueue

/-- The counter is the length of the log, and a message still in the queue is
the one at its offset. -/
structure Keeps (q : PartitionQueue) (log : Log) : Prop where
  size_eq : q.Exact
  next_eq : q.nextOffset.toInt = log.length
  found : ∀ e ∈ q.messages, log.Found e.offset e.payload

variable {q q' : PartitionQueue} {log : Log}

/-- A queue that has lost messages, or got acknowledgements, keeps the log. -/
theorem Keeps.of_sublist (h : q.Keeps log) (hsize : q'.Exact)
    (hnext : q'.nextOffset = q.nextOffset)
    (hsub : (q'.messages.map MessageEntry.unacknowledged).Sublist
      (q.messages.map MessageEntry.unacknowledged)) : q'.Keeps log := by
  refine ⟨hsize, hnext ▸ h.next_eq, ?_⟩
  intro e he
  obtain ⟨e', he', heq⟩ := List.mem_map.mp (hsub.mem (List.mem_map_of_mem he))
  -- acknowledgements apart, `e` is a message of `q`
  obtain ⟨hoffset, hpayload⟩ : e'.offset = e.offset ∧ e'.payload = e.payload := by
    simp only [MessageEntry.unacknowledged, MessageEntry.mk.injEq] at heq
    exact ⟨heq.1, heq.2.1⟩
  exact hoffset ▸ hpayload ▸ h.found e' he'

theorem steady_keeps (log : Log) : Steady fun q => q.Keeps log where
  enforceRetentionPolicy := by
    intro q now h
    obtain ⟨kept, hkept, hsome⟩ := enforceRetentionPolicy_spec now h.size_eq
    exact ⟨_, hsome, h.of_sublist rfl rfl (hkept.sublist.map _)⟩
  acknowledge := by
    intro q offset consumerId h
    apply h.of_sublist (steady_exact.acknowledge q offset consumerId h.size_eq) rfl
    rw [acknowledge, PartitionRun.map_acknowledgeFirst _ _ _ _ fun _ _ => rfl]
  cleanupAcknowledged := by
    intro q h
    exact h.of_sublist rfl rfl (List.filter_sublist.map _)

/-- **An append to the queue is an append to its log**, while the counter has
room. -/
theorem Keeps.append (h : q.Keeps log) (payload : Payload) (partitionId : Int32)
    (now nowEnforce : EpochTime) (hroom : log.length < 2 ^ 63 - 1) :
    ∃ q', q.append payload partitionId now nowEnforce =
        some ((log.append payload.bytes).1, q') ∧
      q'.Keeps (log.append payload.bytes).2 := by
  have hnext := h.next_eq
  have hmax : q.nextOffset ≠ Int64.maxValue := by
    intro hmax
    rw [hmax, Int64.toInt_maxValue] at hnext
    omega
  have hoffset : (log.append payload.bytes).1 = q.nextOffset := by
    rw [← Int64.toInt_inj, hnext, Log.append, Int64.toInt_ofNat_of_lt (by omega)]
  obtain ⟨kept, hkept, hsome⟩ := append_spec payload partitionId now nowEnforce h.size_eq hmax
  rw [hoffset]
  refine ⟨_, hsome, rfl, ?_, ?_⟩
  · simp only [push, toInt_add_one hmax, hnext, Log.append, List.length_append,
      List.length_singleton, Nat.cast_add, Nat.cast_one]
  · intro e he
    rcases List.mem_append.mp (hkept.mem he) with hold | hnew
    · obtain ⟨i, hi, hget⟩ := h.found e hold
      have hlt : i < log.length := (List.getElem?_eq_some_iff.mp hget).1
      exact ⟨i, hi, (List.getElem?_append_left hlt).trans hget⟩
    · -- the new message goes to the end of the log
      rw [List.mem_singleton.mp hnew]
      exact ⟨log.length, hnext, List.getElem?_concat_length⟩

/-- **Recovery brings the log back** from a sound file. -/
theorem keeps_new {wal : Option WalLog} (policy : RetentionPolicy) (hwal : Log.Sound wal) :
    ∃ q, new policy wal = some q ∧ q.Keeps (Log.recovered wal) := by
  have hempty (w : Option WalLog) : (empty policy w).Keeps [] :=
    ⟨rfl, show (0 : Int64).toInt = 0 by decide, by simp [empty]⟩
  cases wal with
  | none => exact ⟨_, rfl, hempty none⟩
  | some w =>
      simp only [new, Log.recovered, Log.Sound] at hwal ⊢
      cases hread : w.readAll with
      | error e =>
          rw [hread] at hwal
          cases e with
          | capacityOverflow => exact absurd rfl hwal
          | unexpectedEof => exact ⟨_, rfl, hempty _⟩
          | invalidEntry => exact ⟨_, rfl, hempty _⟩
      | ok entries =>
          rw [hread] at hwal
          obtain ⟨hnumbered, hroom⟩ := hwal
          refine ⟨_, foldlM_recoverEntry _ _ hroom, ?_, ?_, ?_⟩
          · simp [Exact, empty]
          · have hzero : (empty policy (some w)).nextOffset.toInt = 0 :=
              (hempty (some w)).next_eq
            simpa using hnumbered.offsetAfter hzero hroom
          · intro e he
            obtain ⟨i, hi, rfl⟩ := List.getElem_of_mem (show e ∈ entries by simpa [empty] using he)
            have hget := List.getElem?_eq_getElem hi
            exact ⟨i, by simpa using hnumbered.getElem? hget, by simp [hget]⟩

end PartitionQueue

/-- The log of a partition over its life. -/
def PartitionRun.toLog (s : PartitionRun) : Log := s.history.map fun e => e.payload.bytes

/-- Whatever a partition has been through since its file was empty, the file
is sound and its log is the history. -/
theorem PartitionRun.sound_wal {s : PartitionRun} (hd : s.Durable) (hc : s.Counted) :
    Log.Sound s.queue.wal ∧ Log.recovered s.queue.wal = s.toLog := by
  have hread : WalLog.readAll ⟨WalLog.frames s.history⟩ = .ok s.history := by
    rw [← List.append_nil (WalLog.frames s.history)]
    exact WalLog.readAll_frames hd.fresh (Nat.succ_pos 7)
  rw [hd.wal_eq]
  simp only [Log.Sound, Log.recovered, hread, toLog, and_true]
  exact ⟨hc.numbered, hd.room⟩

/-! ### The logs of a storage -/

/-- The logs of a broker's storage. -/
structure LogStore where
  topics : HashMap String (HashMap Int32 Log)
deriving DecidableEq

namespace LogStore

/-- The log of a partition. -/
def log? (s : LogStore) (topic : String) (partitionId : Int32) : Option Log :=
  (s.topics.lookup topic).bind fun partitions => partitions.lookup partitionId

/-- `Storage::create_topic`; an existing topic is replaced. -/
def createTopic (s : LogStore) (topic : String) : LogStore :=
  ⟨s.topics.insert topic ∅⟩

/-- Put a log in its place, if the topic exists. -/
def setLog (s : LogStore) (topic : String) (partitionId : Int32) (log : Log) : LogStore :=
  ⟨HashMap.modify topic (fun partitions => partitions.insert partitionId log) s.topics⟩

/-- `Storage::create_partition`, where the file of the partition holds
`recovered`. -/
def createPartition (s : LogStore) (topic : String) (partitionId : Int32)
    (recovered : Log) : LogStore :=
  s.setLog topic partitionId recovered

/-- `Storage::append`. -/
def append (s : LogStore) (topic : String) (partitionId : Int32) (payload : List UInt8) :
    Option Int64 × LogStore :=
  match s.log? topic partitionId with
  | some log =>
      (some (log.append payload).1,
        s.setLog topic partitionId (log.append payload).2)
  | none => (none, s)

theorem log?_setLog (s : LogStore) (topic topic' : String)
    (partitionId partitionId' : Int32) (log : Log) :
    (s.setLog topic partitionId log).log? topic' partitionId' =
      if topic' = topic ∧ partitionId' = partitionId ∧ (s.topics.lookup topic).isSome then
        some log
      else s.log? topic' partitionId' := by
  simp only [log?, setLog, HashMap.lookup_modify]
  by_cases ht : topic' = topic
  · subst ht
    cases s.topics.lookup topic' with
    | none => simp
    | some ps => simp [HashMap.lookup_insert_eq]
  · simp [ht]

theorem setLog_self {s : LogStore} {topic : String} {partitionId : Int32} {log : Log}
    (h : s.log? topic partitionId = some log) : s.setLog topic partitionId log = s := by
  obtain ⟨ps, ht, hp⟩ := Option.bind_eq_some_iff.mp h
  simp only [setLog, HashMap.modify, ht, HashMap.insert_self hp, HashMap.insert_self ht]

/-- A refused append changes nothing. -/
theorem append_of_none {s : LogStore} {topic : String} {partitionId : Int32}
    (h : s.log? topic partitionId = none) (payload : List UInt8) :
    s.append topic partitionId payload = (none, s) := by
  simp only [append, h]

theorem log?_createTopic (s : LogStore) (topic topic' : String) (partitionId : Int32) :
    (s.createTopic topic).log? topic' partitionId =
      if topic' = topic then none else s.log? topic' partitionId := by
  simp only [log?, createTopic, HashMap.lookup_insert_eq]
  split_ifs with h
  · simp
  · rfl

/-- An append extends the log of its partition and no other. -/
theorem log?_append (s : LogStore) (topic topic' : String) (partitionId partitionId' : Int32)
    (payload : List UInt8) :
    (s.append topic partitionId payload).2.log? topic' partitionId' =
      if topic' = topic ∧ partitionId' = partitionId then
        (s.log? topic partitionId).map fun log => log ++ [payload]
      else s.log? topic' partitionId' := by
  cases hlog : s.log? topic partitionId with
  | none =>
      rw [append_of_none hlog]
      split_ifs with h
      · rw [h.1, h.2, hlog, Option.map_none]
      · rfl
  | some log =>
      have htopic : (s.topics.lookup topic).isSome = true := by
        cases ht : s.topics.lookup topic with
        | none => simp [log?, ht] at hlog
        | some _ => rfl
      simp only [append, hlog, log?_setLog, htopic, and_true, Log.append, Option.map_some]

/-- What an operation of the storage does to the logs. -/
def step (s : LogStore) : StorageOp → LogStore
  | .createTopic topic => s.createTopic topic
  | .createPartition topic partitionId wal =>
      s.createPartition topic partitionId (Log.recovered wal)
  | .call (.append topic partitionId message _ _) =>
      (s.append topic partitionId message.bytes).2
  | .call _ => s

/-- A partition is created over a sound file, and an append finds the counter
with room. -/
def Admits (s : LogStore) : StorageOp → Prop
  | .createPartition _ _ wal => Log.Sound wal
  | .call (.append topic partitionId _ _ _) =>
      ∀ log, s.log? topic partitionId = some log → log.length < 2 ^ 63 - 1
  | _ => True

theorem step_call {call : StorageCall} (h : ¬ call.IsAppend) (s : LogStore) :
    s.step (.call call) = s := by
  cases call with
  | append topic partitionId message now nowEnforce =>
      exact absurd ⟨topic, partitionId, message, now, nowEnforce, rfl⟩ h
  | _ => rfl

end LogStore

/-! ### The storage refines its logs -/

namespace Storage

open LockM

/-- The storage has the topics of `l`, and each of its queues keeps the log in
its place. -/
structure Refines (s : Storage) (l : LogStore) : Prop where
  topics : ∀ topic, (s.topics.lookup topic).isSome = (l.topics.lookup topic).isSome
  queues : ∀ topic partitionId,
    Option.Rel PartitionQueue.Keeps (s.queue? topic partitionId) (l.log? topic partitionId)

variable {s : Storage} {l : LogStore} {topic : String} {partitionId : Int32}
variable {q : PartitionQueue} {log : Log}

theorem Refines.keeps (h : s.Refines l) (hq : s.queue? topic partitionId = some q) :
    ∃ log, l.log? topic partitionId = some log ∧ q.Keeps log := by
  have hrel := h.queues topic partitionId
  rw [hq] at hrel
  cases hlog : l.log? topic partitionId with
  | none =>
      rw [hlog] at hrel
      cases hrel
  | some log =>
      rw [hlog] at hrel
      cases hrel with
      | some hkeeps => exact ⟨log, rfl, hkeeps⟩

theorem Refines.log?_eq_none (h : s.Refines l) (hq : s.queue? topic partitionId = none) :
    l.log? topic partitionId = none := by
  have hrel := h.queues topic partitionId
  rw [hq] at hrel
  cases hlog : l.log? topic partitionId with
  | none => rfl
  | some log =>
      rw [hlog] at hrel
      cases hrel

/-- A queue and its log are put in their places. -/
theorem Refines.setQueue (h : s.Refines l) (hq : q.Keeps log) :
    (s.setQueue topic partitionId q).Refines (l.setLog topic partitionId log) := by
  constructor
  · intro topic'
    simp only [Storage.setQueue, LogStore.setLog, HashMap.lookup_modify, apply_ite Option.isSome,
      Option.isSome_map, h.topics]
  · intro topic' partitionId'
    rw [queue?_setQueue, LogStore.log?_setLog, h.topics]
    split
    · exact .some hq
    · exact h.queues topic' partitionId'

/-- The operations of a queue do not touch its log. -/
theorem queuewise_refines (l : LogStore) : Queuewise (fun s => s.Refines l)
    fun topic partitionId q => ∃ log, l.log? topic partitionId = some log ∧ q.Keeps log where
  steady topic partitionId := by
    constructor
    · rintro q now ⟨log, hlog, hq⟩
      obtain ⟨q', hsome, hq'⟩ :=
        (PartitionQueue.steady_keeps log).enforceRetentionPolicy q now hq
      exact ⟨q', hsome, log, hlog, hq'⟩
    · rintro q offset consumerId ⟨log, hlog, hq⟩
      exact ⟨log, hlog, (PartitionQueue.steady_keeps log).acknowledge q offset consumerId hq⟩
    · rintro q ⟨log, hlog, hq⟩
      exact ⟨log, hlog, (PartitionQueue.steady_keeps log).cleanupAcknowledged q hq⟩
  queue := fun hs hq => hs.keeps hq
  setQueue := by
    rintro s topic partitionId q q' hs - ⟨log, hlog, hq'⟩
    -- the log that goes back is the one that was there
    rw [← LogStore.setLog_self hlog]
    exact hs.setQueue hq'
  setPolicy := fun _ hs => ⟨hs.topics, hs.queues⟩

/-- **An append to the storage is an append to its logs**: it returns the same
and is refused alike. -/
theorem Refines.append (h : s.Refines l) (message : Payload) (now nowEnforce : EpochTime)
    (hroom : ∀ log, l.log? topic partitionId = some log → log.length < 2 ^ 63 - 1) :
    ∃ s', Storage.append topic partitionId message now nowEnforce .ideal s =
        .ok ((l.append topic partitionId message.bytes).1, s') ∧
      s'.Refines (l.append topic partitionId message.bytes).2 := by
  rw [append_ideal]
  cases hq : s.queue? topic partitionId with
  | none =>
      rw [LogStore.append_of_none (h.log?_eq_none hq)]
      exact ⟨s, rfl, h⟩
  | some q =>
      obtain ⟨log, hlog, hkeeps⟩ := h.keeps hq
      obtain ⟨q', hsome, hkeeps'⟩ :=
        hkeeps.append message partitionId now nowEnforce (hroom log hlog)
      simp only [hsome, LogStore.append, hlog]
      exact ⟨_, rfl, h.setQueue hkeeps'⟩

/-- **A read finds nothing but the log**: what it returns was appended at the
offset under which it is returned. -/
theorem Refines.read (h : s.Refines l) (startOffset : Int64) :
    ∃ messages s', Storage.read topic partitionId startOffset .ideal s = .ok (messages, s') ∧
      messages.isSome = (l.log? topic partitionId).isSome ∧
      ∀ ms log, messages = some ms → l.log? topic partitionId = some log →
        ∀ m ∈ ms, startOffset ≤ m.offset ∧ log.Found m.offset m.payload := by
  rw [Storage.read, bind_run, atPartition_run (fun _ _ => rfl), onQueue]
  cases hq : s.queue? topic partitionId with
  | none =>
      refine ⟨none, s, rfl, ?_, fun ms log hms => by cases hms⟩
      rw [h.log?_eq_none hq]
      rfl
  | some q =>
      obtain ⟨log, hlog, hkeeps⟩ := h.keeps hq
      refine ⟨some ((q.readFrom startOffset 100).map MessageEntry.toStoredMessage), _, rfl, ?_, ?_⟩
      · rw [hlog]
        rfl
      · intro ms log' hms hlog' m hm
        cases hms
        cases hlog.symm.trans hlog'
        obtain ⟨e, he, rfl⟩ := List.mem_map.mp hm
        -- the queue returns messages that it holds, from the offset on
        obtain ⟨hmem, hle⟩ := List.mem_filter.mp (List.mem_of_mem_take he)
        exact ⟨of_decide_eq_true hle, hkeeps.found e hmem⟩

theorem Refines.createTopic (h : s.Refines l) (topic : String) :
    Refines { s with topics := s.topics.insert topic ∅ } (l.createTopic topic) := by
  constructor
  · intro topic'
    simp only [LogStore.createTopic, HashMap.lookup_insert_eq, apply_ite Option.isSome,
      Option.isSome_some, h.topics]
  · intro topic' partitionId
    rw [LogStore.log?_createTopic]
    simp only [queue?, HashMap.lookup_insert_eq]
    split
    · exact .none
    · exact h.queues topic' partitionId

/-- Nothing is created in a topic that does not exist. -/
theorem Refines.createPartition_of_none (h : s.Refines l) (ht : s.topics.lookup topic = none)
    (recovered : Log) : l.createPartition topic partitionId recovered = l := by
  have hl : l.topics.lookup topic = none := by
    rw [← Option.not_isSome_iff_eq_none, ← h.topics, ht]
    simp
  simp only [LogStore.createPartition, LogStore.setLog, HashMap.modify, hl]

/-- **Step lemma.**  Every operation does to the logs what it does to the
storage. -/
theorem Refines.step (h : s.Refines l) (op : StorageOp) (hop : l.Admits op) :
    (s.step op).Refines (l.step op) := by
  cases op with
  | createTopic topic =>
      have hstep : s.step (.createTopic topic) =
          { s with topics := s.topics.insert topic ∅ } := rfl
      rw [hstep]
      exact h.createTopic topic
  | createPartition topic partitionId wal =>
      obtain ⟨q, hnew, hq⟩ := PartitionQueue.keeps_new s.retentionPolicy hop
      simp only [Storage.step, StorageOp.exec, bind_run, createPartition_ideal, LogStore.step]
      cases ht : s.topics.lookup topic with
      | none =>
          rw [h.createPartition_of_none ht]
          exact h
      | some _ =>
          simp only [hnew]
          exact h.setQueue hq
  | call c =>
      by_cases hc : c.IsAppend
      · obtain ⟨topic, partitionId, message, now, nowEnforce, rfl⟩ := hc
        obtain ⟨s', hrun, hs'⟩ := h.append message now nowEnforce hop
        simp only [Storage.step, StorageOp.exec, StorageCall.exec, bind_run, hrun]
        exact hs'
      · rw [LogStore.step_call hc]
        exact step_of_completes (I := fun s => s.Refines l) h
          (completes_exec (queuewise_refines l) (fun _ _ => rfl) c hc)

/-- **Run lemma.**  Throughout a run the storage refines its logs. -/
theorem refines_reached (policy : RetentionPolicy) (ops : List StorageOp)
    (h : Along LogStore.step LogStore.Admits ⟨∅⟩ ops) :
    (reached policy ops).Refines (ops.foldl LogStore.step ⟨∅⟩) := by
  -- induction on the operations, for every storage and its logs to start from
  have hrun : ∀ (s : Storage) (l : LogStore), s.Refines l →
      Along LogStore.step LogStore.Admits l ops →
      (ops.foldl Storage.step s).Refines (ops.foldl LogStore.step l) := by
    clear h
    induction ops with
    | nil => exact fun s l hs _ => hs
    | cons op ops ih =>
        intro s l hs hl
        exact ih _ _ (hs.step op hl.1) hl.2
  refine hrun _ _ ⟨fun topic => rfl, fun topic partitionId => ?_⟩ h
  exact .none

end Storage

end Rafka
