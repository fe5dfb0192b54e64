/-
Rafka/Storage.lean

The storage (`Storage` in `crates/storage/src/db.rs`) with its locks.

A queue has three locks: `messages` and `next_offset` are `RwLock`s, the log
file sits behind a `Mutex`.  Each operation of the queue is written here
once more with the guards it takes, in the scopes in which the source holds
them (`PartitionQueue.Guarded`); with locking left out these are the
operations of `Rafka.Partition`.  The operations of the storage reach a
queue through two concurrent maps, whose guards they hold meanwhile.

`enforce_retention_policy` takes the write guard on `messages` itself, and
`append` calls it while it still holds that guard.  Main result
(`returns_iff`): in every reachable state, a call that starts with all locks
free returns exactly when it is not an append to an existing partition.
-/
import Rafka.HashMap
import Rafka.Lock
import Rafka.Partition

namespace Rafka

open LockM

/-! ### Queue operations under their locks -/

/-- The locks of a `PartitionQueue`. -/
inductive QueueLock
  | messages
  | nextOffset
  | wal
deriving DecidableEq

/-- A call on one queue. -/
abbrev QueueM := LockM QueueLock PartitionQueue

/-- `StorageMetrics`. -/
structure StorageMetrics where
  totalMessages : Nat
  totalBytes : Nat
  oldestMessage : EpochTime
deriving DecidableEq

namespace PartitionQueue.Guarded

/-- `PartitionQueue::enforce_retention_policy`. -/
def enforceRetentionPolicy (now : EpochTime) : QueueM Unit :=
  withLock .messages .write do
    let q ← get
    match q.enforceRetentionPolicy now with
    | some q' => set q'
    | none => panicked

/-- The log write of `append`, under the mutex of the file. -/
def appendWal (entry : MessageEntry) : QueueM Unit := do
  let q ← get
  match q.wal with
  | some w => withLock .wal .write (modify fun q => { q with wal := some (w.append entry) })
  | none => pure ()

/-- `PartitionQueue::append`: both guards live to the end of the function. -/
def append (payload : Payload) (partitionId : Int32) (now nowEnforce : EpochTime) :
    QueueM Int64 :=
  withLock .messages .write <| withLock .nextOffset .write do
    let offset := (← get).nextOffset
    if offset = Int64.maxValue then panicked
    else
      modify fun q => { q with nextOffset := offset + 1 }
      appendWal ⟨offset, payload, now, partitionId, ∅⟩
      modify fun q => { q with currentSize := q.currentSize + payload.len }
      modify fun q =>
        { q with messages := q.messages ++ [⟨offset, payload, now, partitionId, ∅⟩] }
      enforceRetentionPolicy nowEnforce
      pure offset

/-- `PartitionQueue::read_from`. -/
def readFrom (startOffset : Int64) (maxMessages : Nat) : QueueM (List MessageEntry) :=
  withLock .messages .read do
    return (← get).readFrom startOffset maxMessages

/-- `PartitionQueue::acknowledge`: a read guard, the set of an entry has its
own lock. -/
def acknowledge (offset : Int64) (consumerId : String) : QueueM Unit :=
  withLock .messages .read (modify fun q => q.acknowledge offset consumerId)

/-- `PartitionQueue::cleanup_acknowledged`. -/
def cleanupAcknowledged : QueueM Unit :=
  withLock .messages .write (modify fun q => q.cleanupAcknowledged)

/-- The turn of `Storage::get_metrics` for one queue. -/
def addMetrics (m : StorageMetrics) : QueueM StorageMetrics :=
  withLock .messages .read do
    let q ← get
    return {
      totalMessages := m.totalMessages + q.messages.length
      totalBytes := m.totalBytes + q.currentSize
      oldestMessage :=
        match q.messages.head? with
        | some first =>
            if first.timestamp.nanos < m.oldestMessage.nanos then first.timestamp
            else m.oldestMessage
        | none => m.oldestMessage }

end PartitionQueue.Guarded

/-! ### The storage -/

/-- `Storage`. -/
structure Storage where
  topics : HashMap String (HashMap Int32 PartitionQueue)
  consumerOffsets : HashMap String (HashMap (String × Int32) Int64)
  retentionPolicy : RetentionPolicy

/-- The locks of the storage: those of its maps, of its policy and of each
queue. -/
inductive StorageLock
  | topics
  | partitions (topic : String)
  | consumerOffsets
  | retentionPolicy
  | queue (topic : String) (partitionId : Int32) (lock : QueueLock)
deriving DecidableEq

/-- A call on the storage. -/
abbrev StorageM := LockM StorageLock Storage

/-- The lock of one queue that this lock is, if it is one. -/
def StorageLock.ofQueue (topic : String) (partitionId : Int32) :
    StorageLock → Option QueueLock
  | .queue t p l => if t = topic ∧ p = partitionId then some l else none
  | _ => none

/-- The guards held on one queue. -/
def Guards.ofQueue (g : Guards StorageLock) (topic : String) (partitionId : Int32) :
    Guards QueueLock :=
  Option.map (List.filterMap fun (l, m) =>
    (l.ofQueue topic partitionId).map fun l' => (l', m)) g

namespace Storage

/-- `Storage::with_retention_policy`. -/
def withRetentionPolicy (retentionPolicy : RetentionPolicy) : Storage where
  topics := ∅
  consumerOffsets := ∅
  retentionPolicy := retentionPolicy

/-- The queue of a partition. -/
def queue? (s : Storage) (topic : String) (partitionId : Int32) : Option PartitionQueue :=
  (s.topics.lookup topic).bind fun partitions => partitions.lookup partitionId

/-- Put a queue in its place. -/
def setQueue (s : Storage) (topic : String) (partitionId : Int32) (q : PartitionQueue) :
    Storage :=
  { s with topics := HashMap.modify topic (fun ps => ps.insert partitionId q) s.topics }

/-- Run a call on the queue of a partition, if there is one. -/
def onQueue {α : Type} (topic : String) (partitionId : Int32) (c : QueueM α) :
    StorageM (Option α) := fun g s =>
  match s.queue? topic partitionId with
  | none => .ok (none, s)
  | some q =>
      match c (g.ofQueue topic partitionId) q with
      | .ok (a, q') => .ok (some a, s.setQueue topic partitionId q')
      | .error (.blocked l) => .error (.blocked (.queue topic partitionId l))
      | .error .panicked => .error .panicked

/-- Look up a topic and a partition and run a call on its queue; the guards
of both maps are held meanwhile. -/
def atPartition {α : Type} (topic : String) (partitionId : Int32) (c : QueueM α) :
    StorageM (Option α) :=
  withLock .topics .read do
    match (← get).topics.lookup topic with
    | some _ => withLock (.partitions topic) .read (onQueue topic partitionId c)
    | none => pure none

/-- Two nested loops over the maps; `order` is the order in which they are
iterated, with what each turn needs. -/
def forEachPartition {β γ : Type} (order : List (String × List γ))
    (turn : β → String → γ → StorageM β) (b : β) : StorageM β :=
  withLock .topics .read <|
    order.foldlM (fun b (topic, xs) =>
      withLock (.partitions topic) .read (xs.foldlM (fun b x => turn b topic x) b)) b

/-- `Storage::create_topic`; an existing topic is replaced. -/
def createTopic (topic : String) : StorageM Unit :=
  withLock .topics .write (modify fun s => { s with topics := s.topics.insert topic ∅ })

/-- `Storage::create_partition`, where the file of the partition is `wal`. -/
def createPartition (topic : String) (partitionId : Int32) (wal : Option WalLog) :
    StorageM Bool :=
  withLock .topics .read do
    match (← get).topics.lookup topic with
    | none => pure false
    | some _ =>
        let policy ← withLock .retentionPolicy .read do return (← get).retentionPolicy
        match PartitionQueue.new policy wal with
        | none => panicked
        | some q =>
            withLock (.partitions topic) .write (modify fun s => s.setQueue topic partitionId q)
            pure true

/-- `Storage::append`. -/
def append (topic : String) (partitionId : Int32) (message : Payload)
    (now nowEnforce : EpochTime) : StorageM (Option Int64) :=
  atPartition topic partitionId
    (PartitionQueue.Guarded.append message partitionId now nowEnforce)

/-- `Storage::read`. -/
def read (topic : String) (partitionId : Int32) (startOffset : Int64) :
    StorageM (Option (List StoredMessage)) := do
  let entries ← atPartition topic partitionId
    (PartitionQueue.Guarded.readFrom startOffset 100)
  pure (entries.map fun es => es.map MessageEntry.toStoredMessage)

/-- `Storage::acknowledge`. -/
def acknowledge (topic : String) (partitionId : Int32) (offset : Int64)
    (consumerId : String) : StorageM Unit := do
  let _ ← atPartition topic partitionId
    (PartitionQueue.Guarded.acknowledge offset consumerId)

/-- `Storage::cleanup`. -/
def cleanup (order : List (String × List Int32)) : StorageM Unit :=
  forEachPartition order (fun _ topic partitionId => do
    let _ ← onQueue topic partitionId PartitionQueue.Guarded.cleanupAcknowledged) ()

/-- The retention pass over all partitions, each with its clock reading. -/
def enforceAll (order : List (String × List (Int32 × EpochTime))) : StorageM Unit :=
  forEachPartition order (fun _ topic (partitionId, now) => do
    let _ ← onQueue topic partitionId
      (PartitionQueue.Guarded.enforceRetentionPolicy now)) ()

/-- `Storage::update_retention_policy`; the write guard is dropped before
the pass. -/
def updateRetentionPolicy (policy : RetentionPolicy)
    (order : List (String × List (Int32 × EpochTime))) : StorageM Unit := do
  withLock .retentionPolicy .write (modify fun s => { s with retentionPolicy := policy })
  enforceAll order

/-- `Storage::cleanup_old_messages`; the policy it reads is not used. -/
def cleanupOldMessages (order : List (String × List (Int32 × EpochTime))) :
    StorageM Unit := do
  let _policy ← withLock .retentionPolicy .read do return (← get).retentionPolicy
  enforceAll order

/-- `Storage::get_metrics`. -/
def getMetrics (now : EpochTime) (order : List (String × List Int32)) :
    StorageM StorageMetrics :=
  forEachPartition order (fun m topic partitionId => do
    let m' ← onQueue topic partitionId (PartitionQueue.Guarded.addMetrics m)
    pure (m'.getD m)) ⟨0, 0, now⟩

/-- `Storage::update_consumer_offset`. -/
def updateConsumerOffset (consumerId topic : String) (partitionId : Int32)
    (offset : Int64) : StorageM Unit :=
  withLock .consumerOffsets .write <| modify fun s =>
    let offsets := (s.consumerOffsets.lookup consumerId).getD ∅
    { s with
      consumerOffsets :=
        s.consumerOffsets.insert consumerId (offsets.insert (topic, partitionId) offset) }

/-- `Storage::get_consumer_offset`. -/
def getConsumerOffset (consumerId topic : String) (partitionId : Int32) :
    StorageM (Option Int64) :=
  withLock .consumerOffsets .read do
    return ((← get).consumerOffsets.lookup consumerId).bind fun offsets =>
      offsets.lookup (topic, partitionId)

/-- `Storage::read_from_offset`. -/
def readFromOffset (topic : String) (partitionId : Int32) (consumerId : String) :
    StorageM (Option (List StoredMessage)) := do
  let startOffset ← getConsumerOffset consumerId topic partitionId
  read topic partitionId (startOffset.getD 0)

end Storage

/-! ### The queue operations, with locking left out and under their locks -/

namespace PartitionQueue.Guarded

variable {g : Guards QueueLock} {q : PartitionQueue}

theorem enforceRetentionPolicy_run (hg : g.admits .messages .write = true)
    (now : EpochTime) :
    enforceRetentionPolicy now g q =
      match q.enforceRetentionPolicy now with
      | some q' => .ok ((), q')
      | none => .error .panicked := by
  rw [enforceRetentionPolicy, withLock_run hg, bind_run, get_run]
  dsimp only
  cases q.enforceRetentionPolicy now <;> rfl

theorem appendWal_run (hg : g.admits .wal .write = true) (entry : MessageEntry) :
    appendWal entry g q = .ok ((), { q with wal := q.wal.map fun w => w.append entry }) := by
  rw [appendWal, bind_run, get_run]
  dsimp only
  cases hw : q.wal with
  | none =>
      cases q
      cases hw
      rfl
  | some w =>
      dsimp only
      rw [withLock_run hg, modify_run, Option.map_some]

/-- The body of `append`, up to the retention check and what comes after it. -/
theorem append_run (payload : Payload) (partitionId : Int32) (now nowEnforce : EpochTime)
    (hm : g.admits .messages .write = true)
    (hn : (g.push .messages .write).admits .nextOffset .write = true)
    (hw : ((g.push .messages .write).push .nextOffset .write).admits .wal .write = true)
    (hroom : q.nextOffset ≠ Int64.maxValue) :
    append payload partitionId now nowEnforce g q =
      match enforceRetentionPolicy nowEnforce
          ((g.push .messages .write).push .nextOffset .write)
          (q.push ⟨q.nextOffset, payload, now, partitionId, ∅⟩) with
      | .ok (_, q') => .ok (q.nextOffset, q')
      | .error e => .error e := by
  -- both guards are taken, then one statement of the body after the other
  rw [append, withLock_run hm, withLock_run hn, bind_run, get_run]
  dsimp only
  rw [if_neg hroom, bind_run, modify_run]
  dsimp only
  rw [bind_run, appendWal_run hw]
  dsimp only
  rw [bind_run, modify_run]
  dsimp only
  rw [bind_run, modify_run]
  dsimp only
  rw [bind_run, PartitionQueue.push]
  dsimp only
  cases enforceRetentionPolicy nowEnforce
    ((g.push .messages .write).push .nextOffset .write) _ <;> rfl

/-- With locking left out, this is `PartitionQueue.append`. -/
theorem append_ideal (payload : Payload) (partitionId : Int32) (now nowEnforce : EpochTime) :
    append payload partitionId now nowEnforce .ideal q =
      match q.append payload partitionId now nowEnforce with
      | some r => .ok r
      | none => .error .panicked := by
  by_cases hmax : q.nextOffset = Int64.maxValue
  · -- the increment overflows
    rw [PartitionQueue.append, if_pos hmax, append, withLock_run rfl, withLock_run rfl,
      bind_run, get_run]
    dsimp only
    rw [if_pos hmax]
    rfl
  · rw [append_run payload partitionId now nowEnforce rfl rfl rfl hmax,
      enforceRetentionPolicy_run rfl, PartitionQueue.append, if_neg hmax]
    dsimp only
    cases (q.push ⟨q.nextOffset, payload, now, partitionId, ∅⟩).enforceRetentionPolicy
      nowEnforce <;> rfl

/-- **`append` waits for itself**: the retention check asks for the guard on
`messages` that `append` holds. -/
theorem append_free (payload : Payload) (partitionId : Int32) (now nowEnforce : EpochTime)
    (hroom : q.nextOffset ≠ Int64.maxValue) :
    append payload partitionId now nowEnforce .free q = .error (.blocked .messages) := by
  rw [append_run payload partitionId now nowEnforce rfl rfl rfl hroom]
  rfl

/-- `append` under its locks never returns. -/
theorem append_free_ne_ok (payload : Payload) (partitionId : Int32)
    (now nowEnforce : EpochTime) (r : Int64 × PartitionQueue) :
    append payload partitionId now nowEnforce .free q ≠ .ok r := by
  by_cases hmax : q.nextOffset = Int64.maxValue
  · rw [append, withLock_run rfl, withLock_run rfl, bind_run, get_run]
    dsimp only
    rw [if_pos hmax, panicked_run]
    simp
  · rw [append_free payload partitionId now nowEnforce hmax]
    simp

/-! The other operations return, with the lock on `messages` free. -/

variable {J : PartitionQueue → Prop} (hJ : Steady J)
variable (hg : ∀ m, g.admits .messages m = true)
include hg

theorem completes_readFrom (startOffset : Int64) (maxMessages : Nat) :
    Completes g J (readFrom startOffset maxMessages) := by
  refine .withLock (hg .read) ?_
  intro q hq
  exact ⟨_, q, rfl, hq⟩

theorem completes_addMetrics (m : StorageMetrics) : Completes g J (addMetrics m) := by
  refine .withLock (hg .read) ?_
  intro q hq
  exact ⟨_, q, rfl, hq⟩

include hJ

theorem completes_enforceRetentionPolicy (now : EpochTime) :
    Completes g J (enforceRetentionPolicy now) := by
  intro q hq
  obtain ⟨q', hsome, hq'⟩ := hJ.enforceRetentionPolicy q now hq
  refine ⟨(), q', ?_, hq'⟩
  rw [enforceRetentionPolicy_run (hg .write), hsome]

theorem completes_acknowledge (offset : Int64) (consumerId : String) :
    Completes g J (acknowledge offset consumerId) :=
  .withLock (hg .read) (.modify fun q hq => hJ.acknowledge q offset consumerId hq)

theorem completes_cleanupAcknowledged : Completes g J cleanupAcknowledged :=
  .withLock (hg .write) (.modify fun q hq => hJ.cleanupAcknowledged q hq)

end PartitionQueue.Guarded

/-! ### Storage operations that return -/

/-- The guards on a queue admit what the storage's guards admit for it. -/
theorem Guards.admits_ofQueue (g : Guards StorageLock) (topic : String)
    (partitionId : Int32) (l : QueueLock) (m : Mode) :
    (g.ofQueue topic partitionId).admits l m = g.admits (.queue topic partitionId l) m := by
  cases g with
  | none => rfl
  | some held =>
      -- guard by guard: only those on this queue are looked at on either side
      simp only [Guards.ofQueue, Option.map_some, Guards.admits, List.all_filterMap]
      congr 1
      funext held
      obtain ⟨l', m'⟩ := held
      cases l' with
      | queue t p l' =>
          by_cases htp : t = topic ∧ p = partitionId
          · simp [StorageLock.ofQueue, htp]
          · have hne : StorageLock.queue t p l' ≠ .queue topic partitionId l := by
              rintro ⟨⟩
              exact htp ⟨rfl, rfl⟩
            simp [StorageLock.ofQueue, htp, hne]
      | _ => simp [StorageLock.ofQueue]

namespace Storage

/-- Every queue of the storage has its exact size. -/
def Exact (s : Storage) : Prop :=
  ∀ topic partitionId q, s.queue? topic partitionId = some q → q.Exact

/-- `I` says `J` of each queue, and nothing else that a call on a queue or a
new policy could change. -/
structure Queuewise (I : Storage → Prop) (J : String → Int32 → PartitionQueue → Prop) :
    Prop where
  steady : ∀ topic partitionId, PartitionQueue.Steady (J topic partitionId)
  queue : ∀ {s topic partitionId q}, I s → s.queue? topic partitionId = some q →
    J topic partitionId q
  setQueue : ∀ {s topic partitionId q q'}, I s → s.queue? topic partitionId = some q →
    J topic partitionId q' → I (s.setQueue topic partitionId q')
  setPolicy : ∀ {s} policy, I s → I { s with retentionPolicy := policy }

variable {s : Storage} {g : Guards StorageLock}

theorem queue?_setQueue (topic topic' : String) (partitionId partitionId' : Int32)
    (q : PartitionQueue) :
    (s.setQueue topic partitionId q).queue? topic' partitionId' =
      if topic' = topic ∧ partitionId' = partitionId ∧ (s.topics.lookup topic).isSome then some q
      else s.queue? topic' partitionId' := by
  simp only [queue?, setQueue, HashMap.lookup_modify]
  by_cases ht : topic' = topic
  · subst ht
    cases s.topics.lookup topic' with
    | none => simp
    | some ps =>
        simp [HashMap.lookup_insert_eq]
  · simp [ht]

theorem Exact.setQueue {topic : String} {partitionId : Int32} {q : PartitionQueue}
    (hs : s.Exact) (hq : q.Exact) : (s.setQueue topic partitionId q).Exact := by
  intro topic' partitionId' q' h
  rw [queue?_setQueue] at h
  split at h
  · cases h
    exact hq
  · exact hs topic' partitionId' q' h

theorem queuewise_exact : Queuewise Exact fun _ _ => PartitionQueue.Exact where
  steady := fun _ _ => PartitionQueue.steady_exact
  queue := fun hs hq => hs _ _ _ hq
  setQueue := fun hs _ hq' => hs.setQueue hq'
  setPolicy := fun _ hs => hs

section Completes

variable {I : Storage → Prop} {J : String → Int32 → PartitionQueue → Prop}
variable (hI : Queuewise I J)
include hI

/-- A call on a queue that returns, returns on the storage. -/
theorem completes_onQueue {α : Type} {topic : String} {partitionId : Int32} {c : QueueM α}
    (hc : Completes (g.ofQueue topic partitionId) (J topic partitionId) c) :
    Completes g I (onQueue topic partitionId c) := by
  intro s hs
  cases hq : s.queue? topic partitionId with
  | none => exact ⟨none, s, by simp only [onQueue, hq], hs⟩
  | some q =>
      obtain ⟨a, q', hrun, hq'⟩ := hc q (hI.queue hs hq)
      exact ⟨some a, s.setQueue topic partitionId q', by simp only [onQueue, hq, hrun],
        hI.setQueue hs hq hq'⟩

omit hI in
/-- The guards of the maps leave the locks of a queue free. -/
theorem admits_queue (hg : ∀ l m, g.admits l m = true) (topic : String) (partitionId : Int32)
    (l : QueueLock) (m : Mode) :
    (((g.push .topics .read).push (.partitions topic) .read).ofQueue topic
      partitionId).admits l m = true := by
  rw [Guards.admits_ofQueue]
  exact Guards.admits_push (Guards.admits_push (hg _ _) (.inl (by simp))) (.inl (by simp))

theorem completes_atPartition {α : Type} {topic : String} {partitionId : Int32}
    {c : QueueM α} (hg : ∀ l m, g.admits l m = true)
    (hc : ∀ g : Guards QueueLock, (∀ l m, g.admits l m = true) →
      Completes g (J topic partitionId) c) :
    Completes g I (atPartition topic partitionId c) := by
  refine .withLock (hg _ _) (.bind (fun s hs => ⟨s, s, rfl, hs⟩) fun s => ?_)
  cases s.topics.lookup topic with
  | none => exact .pure none
  | some _ =>
      refine .withLock (Guards.admits_push (hg _ _) (.inl (by simp))) (completes_onQueue hI ?_)
      exact hc _ (admits_queue hg topic partitionId)

omit hI in
theorem completes_forEachPartition {β γ : Type} {turn : β → String → γ → StorageM β}
    (hg : ∀ l m, g.admits l m = true)
    (hturn : ∀ b topic x,
      Completes ((g.push .topics .read).push (.partitions topic) .read) I (turn b topic x))
    (order : List (String × List γ)) (b : β) :
    Completes g I (forEachPartition order turn b) := by
  -- the outer loop holds the guard on the topics, the inner one also that of a topic
  refine .withLock (hg _ _) (.foldlM (fun b (topic, xs) => ?_) order b)
  refine .withLock (Guards.admits_push (hg _ _) (.inl (by simp))) ?_
  exact .foldlM (fun b x => hturn b topic x) xs b

theorem completes_enforceAll (hg : ∀ l m, g.admits l m = true)
    (order : List (String × List (Int32 × EpochTime))) :
    Completes g I (enforceAll order) := by
  refine completes_forEachPartition hg (fun _ topic (partitionId, now) => ?_) order ()
  refine .bind (completes_onQueue hI ?_) fun _ => .pure ()
  exact PartitionQueue.Guarded.completes_enforceRetentionPolicy (hI.steady topic partitionId)
    (fun m => admits_queue hg topic partitionId .messages m) now

end Completes

/-- Where its maps are free, `atPartition` goes straight to the queue. -/
theorem atPartition_run {α : Type} (hg : ∀ l m, g.admits l m = true) (topic : String)
    (partitionId : Int32) (c : QueueM α) :
    atPartition topic partitionId c g s =
      onQueue topic partitionId c
        ((g.push .topics .read).push (.partitions topic) .read) s := by
  rw [atPartition, withLock_run (hg _ _), bind_run, get_run]
  dsimp only
  cases ht : s.topics.lookup topic with
  | none => simp only [pure_run, onQueue, queue?, ht, Option.bind_none]
  | some _ =>
      dsimp only
      rw [withLock_run (Guards.admits_push (hg _ _) (.inl (by simp)))]

end Storage

/-! ### Runs of the storage -/

/-- A call of the storage, with the clock readings and iteration orders the
environment chooses. -/
inductive StorageCall
  | append (topic : String) (partitionId : Int32) (message : Payload)
      (now nowEnforce : EpochTime)
  | read (topic : String) (partitionId : Int32) (startOffset : Int64)
  | acknowledge (topic : String) (partitionId : Int32) (offset : Int64)
      (consumerId : String)
  | cleanup (order : List (String × List Int32))
  | updateRetentionPolicy (policy : RetentionPolicy)
      (order : List (String × List (Int32 × EpochTime)))
  | cleanupOldMessages (order : List (String × List (Int32 × EpochTime)))
  | getMetrics (now : EpochTime) (order : List (String × List Int32))

/-- Run a call, whatever it returns. -/
def StorageCall.exec : StorageCall → StorageM Unit
  | .append topic partitionId message now nowEnforce => do
      let _ ← Storage.append topic partitionId message now nowEnforce
  | .read topic partitionId startOffset => do
      let _ ← Storage.read topic partitionId startOffset
  | .acknowledge topic partitionId offset consumerId =>
      Storage.acknowledge topic partitionId offset consumerId
  | .cleanup order => Storage.cleanup order
  | .updateRetentionPolicy policy order => Storage.updateRetentionPolicy policy order
  | .cleanupOldMessages order => Storage.cleanupOldMessages order
  | .getMetrics now order => do
      let _ ← Storage.getMetrics now order

/-- The call is an append. -/
def StorageCall.IsAppend (call : StorageCall) : Prop :=
  ∃ topic partitionId message now nowEnforce,
    call = .append topic partitionId message now nowEnforce

/-- The call is an append that finds its partition. -/
def StorageCall.AppendsTo (s : Storage) : StorageCall → Prop
  | .append topic partitionId _ _ _ => (s.queue? topic partitionId).isSome
  | _ => False

theorem StorageCall.not_appendsTo {s : Storage} {call : StorageCall}
    (h : ¬ call.IsAppend) : ¬ call.AppendsTo s := by
  cases call with
  | append topic partitionId message now nowEnforce =>
      exact absurd ⟨topic, partitionId, message, now, nowEnforce, rfl⟩ h
  | _ => exact id

/-- What happens to a storage over its life. -/
inductive StorageOp
  | createTopic (topic : String)
  | createPartition (topic : String) (partitionId : Int32) (wal : Option WalLog)
  | call (c : StorageCall)

/-- Run an operation, whatever it returns. -/
def StorageOp.exec : StorageOp → StorageM Unit
  | .createTopic topic => Storage.createTopic topic
  | .createPartition topic partitionId wal => do
      let _ ← Storage.createPartition topic partitionId wal
  | .call c => c.exec

namespace Storage

/-- The storage after an operation, with locking left out: this reaches at
least every state in which the locks can be found free. -/
def step (s : Storage) (op : StorageOp) : Storage :=
  match op.exec .ideal s with
  | .ok (_, s') => s'
  | .error _ => s

variable {s : Storage}

/-- Every call that is not an append returns. -/
theorem completes_exec {g : Guards StorageLock} {I : Storage → Prop}
    {J : String → Int32 → PartitionQueue → Prop} (hI : Queuewise I J)
    (hg : ∀ l m, g.admits l m = true) (call : StorageCall) (hcall : ¬ call.IsAppend) :
    Completes g I call.exec := by
  cases call with
  | append topic partitionId message now nowEnforce =>
      exact absurd ⟨topic, partitionId, message, now, nowEnforce, rfl⟩ hcall
  | read topic partitionId startOffset =>
      refine .bind (.bind (completes_atPartition hI hg fun g hg => ?_) fun _ => .pure _)
        fun _ => .pure ()
      exact PartitionQueue.Guarded.completes_readFrom (hg .messages) startOffset 100
  | acknowledge topic partitionId offset consumerId =>
      refine .bind (completes_atPartition hI hg fun g hg => ?_) fun _ => .pure ()
      exact PartitionQueue.Guarded.completes_acknowledge (hI.steady topic partitionId)
        (hg .messages) offset consumerId
  | cleanup order =>
      unfold StorageCall.exec cleanup
      refine completes_forEachPartition hg (fun _ topic partitionId => ?_) order ()
      refine .bind (completes_onQueue hI ?_) fun _ => .pure ()
      exact PartitionQueue.Guarded.completes_cleanupAcknowledged (hI.steady topic partitionId)
        (fun m => admits_queue hg topic partitionId .messages m)
  | updateRetentionPolicy policy order =>
      -- the guard on the policy is gone when the pass starts
      refine .bind (.withLock (hg _ _) (.modify fun s hs => ?_))
        fun _ => completes_enforceAll hI hg order
      exact hI.setPolicy policy hs
  | cleanupOldMessages order =>
      refine .bind (.withLock (hg _ _) ?_) fun _ => completes_enforceAll hI hg order
      exact fun s hs => ⟨_, s, rfl, hs⟩
  | getMetrics now order =>
      refine .bind (completes_forEachPartition hg (fun m topic partitionId => ?_) order _)
        fun _ => .pure ()
      refine .bind (completes_onQueue hI ?_) fun _ => .pure _
      exact PartitionQueue.Guarded.completes_addMetrics
        (fun mode => admits_queue hg topic partitionId .messages mode) m

/-- An append with locking left out: the queue's own append. -/
theorem append_ideal (topic : String) (partitionId : Int32) (message : Payload)
    (now nowEnforce : EpochTime) :
    append topic partitionId message now nowEnforce .ideal s =
      match s.queue? topic partitionId with
      | none => .ok (none, s)
      | some q =>
          match q.append message partitionId now nowEnforce with
          | some (offset, q') => .ok (some offset, s.setQueue topic partitionId q')
          | none => .error .panicked := by
  rw [append, atPartition_run (fun _ _ => rfl), onQueue]
  cases s.queue? topic partitionId with
  | none => rfl
  | some q =>
      dsimp only
      have hideal : Guards.ofQueue ((Guards.push .ideal .topics .read).push
          (.partitions topic) .read) topic partitionId = .ideal := rfl
      rw [hideal, PartitionQueue.Guarded.append_ideal]
      cases q.append message partitionId now nowEnforce <;> rfl

/-- What a read with locking left out returns. -/
theorem read_ideal {topic : String} {partitionId : Int32} {q : PartitionQueue}
    (hq : s.queue? topic partitionId = some q) (startOffset : Int64) :
    read topic partitionId startOffset .ideal s =
      .ok (some ((q.readFrom startOffset 100).map MessageEntry.toStoredMessage),
        s.setQueue topic partitionId q) := by
  rw [read, bind_run, atPartition_run (fun _ _ => rfl), onQueue, hq]
  rfl

theorem createPartition_ideal (topic : String) (partitionId : Int32) (wal : Option WalLog) :
    createPartition topic partitionId wal .ideal s =
      match s.topics.lookup topic with
      | none => .ok (false, s)
      | some _ =>
          match PartitionQueue.new s.retentionPolicy wal with
          | none => .error .panicked
          | some q => .ok (true, s.setQueue topic partitionId q) := by
  rw [createPartition, withLock_run rfl, bind_run, get_run]
  dsimp only
  cases s.topics.lookup topic with
  | none => rfl
  | some _ =>
      dsimp only
      rw [bind_run, withLock_run rfl, bind_run, get_run]
      dsimp only
      rw [pure_run]
      dsimp only
      cases PartitionQueue.new s.retentionPolicy wal <;> rfl

theorem step_of_completes {op : StorageOp} {I : Storage → Prop} (hs : I s)
    (h : Completes .ideal I op.exec) : I (s.step op) := by
  obtain ⟨a, s', hrun, hs'⟩ := h s hs
  simp only [step, hrun]
  exact hs'

/-- **Invariant rule for calls.**  What is true of each queue, and kept by its
operations, is true after every call. -/
theorem Queuewise.step_call {I : Storage → Prop} {J : String → Int32 → PartitionQueue → Prop}
    (hI : Queuewise I J)
    (happend : ∀ {topic partitionId q message now nowEnforce offset q'}, J topic partitionId q →
      q.append message partitionId now nowEnforce = some (offset, q') → J topic partitionId q')
    (hs : I s) (c : StorageCall) : I (s.step (.call c)) := by
  by_cases hc : c.IsAppend
  · obtain ⟨topic, partitionId, message, now, nowEnforce, rfl⟩ := hc
    simp only [Storage.step, StorageOp.exec, StorageCall.exec, bind_run, append_ideal]
    cases hq : s.queue? topic partitionId with
    | none => exact hs
    | some q =>
        dsimp only
        cases hrun : q.append message partitionId now nowEnforce with
        | none => exact hs
        | some r => exact hI.setQueue hs hq (happend (hI.queue hs hq) hrun)
  · exact step_of_completes hs (completes_exec hI (fun _ _ => rfl) c hc)

/-- A partition that is created is put in its place as its file was read. -/
theorem step_createPartition_cases (s : Storage) (topic : String) (partitionId : Int32)
    (wal : Option WalLog) :
    s.step (.createPartition topic partitionId wal) = s ∨
      ∃ q, PartitionQueue.new s.retentionPolicy wal = some q ∧
        s.step (.createPartition topic partitionId wal) = s.setQueue topic partitionId q := by
  simp only [Storage.step, StorageOp.exec, bind_run, createPartition_ideal]
  cases s.topics.lookup topic with
  | none => exact .inl rfl
  | some _ =>
      dsimp only
      cases hnew : PartitionQueue.new s.retentionPolicy wal with
      | none => exact .inl rfl
      | some q => exact .inr ⟨q, rfl, rfl⟩

theorem Exact.createTopic (hs : s.Exact) (topic : String) :
    Exact { s with topics := s.topics.insert topic ∅ } := by
  intro topic' partitionId q h
  simp only [queue?, HashMap.lookup_insert_eq] at h
  split at h
  · simp at h
  · exact hs topic' partitionId q h

/-- **Step lemma.**  Every operation keeps the sizes exact. -/
theorem Exact.step (hs : s.Exact) (op : StorageOp) : (s.step op).Exact := by
  cases op with
  | createTopic topic =>
      refine step_of_completes hs (.withLock rfl (.modify fun s hs => ?_))
      exact hs.createTopic topic
  | createPartition topic partitionId wal =>
      rcases s.step_createPartition_cases topic partitionId wal with heq | ⟨q, hnew, heq⟩
      · rw [heq]
        exact hs
      · -- whatever the file holds, the size is counted from what was read
        rw [heq]
        exact hs.setQueue (PartitionQueue.size_of_new hnew)
  | call c => exact queuewise_exact.step_call (fun hq happend => hq.of_append happend) hs c

/-- The same topics, with the same partitions. -/
structure SameKeys (s s' : Storage) : Prop where
  topics : ∀ topic, (s'.topics.lookup topic).isSome = (s.topics.lookup topic).isSome
  queues : ∀ topic partitionId,
    (s'.queue? topic partitionId).isSome = (s.queue? topic partitionId).isSome

theorem SameKeys.refl (s : Storage) : SameKeys s s := ⟨fun _ => rfl, fun _ _ => rfl⟩

/-- A queue is replaced by another one. -/
theorem SameKeys.setQueue {s s' : Storage} {topic : String} {partitionId : Int32}
    {q q' : PartitionQueue} (h : SameKeys s s') (hq : s'.queue? topic partitionId = some q) :
    SameKeys s (s'.setQueue topic partitionId q') := by
  constructor
  · intro topic'
    rw [← h.topics, Storage.setQueue, HashMap.lookup_modify]
    split
    · rw [Option.isSome_map]
    · rfl
  · intro topic' partitionId'
    rw [← h.queues, queue?_setQueue]
    split
    · rename_i hsame
      rw [hsame.1, hsame.2.1, hq]
      rfl
    · rfl

theorem queuewise_sameKeys (s : Storage) :
    Queuewise (fun s' => s'.Exact ∧ SameKeys s s') fun _ _ => PartitionQueue.Exact where
  steady _ _ := PartitionQueue.steady_exact
  queue hs' hq := hs'.1 _ _ _ hq
  setQueue hs' hq hq' := ⟨hs'.1.setQueue hq', hs'.2.setQueue hq⟩
  setPolicy _ hs' := ⟨hs'.1, hs'.2.topics, hs'.2.queues⟩

/-- A call of the storage creates and removes nothing. -/
theorem sameKeys_call (hs : s.Exact) (c : StorageCall) : SameKeys s (s.step (.call c)) :=
  ((queuewise_sameKeys s).step_call (fun hq happend => hq.of_append happend) ⟨hs, .refl s⟩ c).2

/-- The state reached by the operations `ops`. -/
def reached (policy : RetentionPolicy) (ops : List StorageOp) : Storage :=
  ops.foldl step (withRetentionPolicy policy)

/-- **Run lemma.**  In every reachable state the sizes are exact. -/
theorem exact_reached (policy : RetentionPolicy) (ops : List StorageOp) :
    (reached policy ops).Exact := by
  -- induction on the operations, for every state to start from
  have hrun : ∀ s : Storage, s.Exact → (ops.foldl step s).Exact := by
    induction ops with
    | nil => exact fun s hs => hs
    | cons op ops ih => exact fun s hs => ih (s.step op) (hs.step op)
  apply hrun _
  intro topic partitionId q h
  simp [queue?, withRetentionPolicy] at h

/-- An append that starts with all locks free is the queue's own append, with
all locks of the queue free. -/
theorem append_free {topic : String} {partitionId : Int32} {q : PartitionQueue}
    (hq : s.queue? topic partitionId = some q) (message : Payload)
    (now nowEnforce : EpochTime) :
    append topic partitionId message now nowEnforce .free s =
      match PartitionQueue.Guarded.append message partitionId now nowEnforce .free q with
      | .ok (offset, q') => .ok (some offset, s.setQueue topic partitionId q')
      | .error (.blocked l) => .error (.blocked (.queue topic partitionId l))
      | .error .panicked => .error .panicked := by
  have hfree : Guards.ofQueue ((Guards.push .free .topics .read).push
      (.partitions topic) .read) topic partitionId = .free := rfl
  rw [append, atPartition_run (fun _ _ => Guards.admits_free _ _), onQueue, hq]
  dsimp only
  rw [hfree]
  rcases PartitionQueue.Guarded.append message partitionId now nowEnforce .free q with
    (l | -) | r <;> rfl

/-- An append that finds its partition does not return. -/
theorem append_free_ne_ok {topic : String} {partitionId : Int32} {q : PartitionQueue}
    (hq : s.queue? topic partitionId = some q) (message : Payload)
    (now nowEnforce : EpochTime) (r : Option Int64 × Storage) :
    append topic partitionId message now nowEnforce .free s ≠ .ok r := by
  rw [append_free hq]
  rcases hrun : PartitionQueue.Guarded.append message partitionId now nowEnforce .free q with
    (l | -) | r'
  · simp
  · simp
  · exact absurd hrun (PartitionQueue.Guarded.append_free_ne_ok _ _ _ _ r')

/-- **A call returns exactly when it is not an append to an existing
partition.**  This holds in every reachable state, for a call that starts
with all locks free. -/
theorem returns_iff (policy : RetentionPolicy) (ops : List StorageOp) (call : StorageCall) :
    (∃ s', call.exec .free (reached policy ops) = .ok ((), s')) ↔
      ¬ call.AppendsTo (reached policy ops) := by
  have hs := exact_reached policy ops
  -- all that matters of the state is that its sizes are exact
  generalize reached policy ops = s at hs
  by_cases hcall : call.IsAppend
  · obtain ⟨topic, partitionId, message, now, nowEnforce, rfl⟩ := hcall
    cases hq : s.queue? topic partitionId with
    | none =>
        simp only [StorageCall.exec, StorageCall.AppendsTo, bind_run, append,
          atPartition_run (fun _ _ => Guards.admits_free _ _), onQueue, hq]
        simp [pure_run]
    | some q =>
        refine iff_of_false ?_ (by simp [StorageCall.AppendsTo, hq])
        rintro ⟨s', hrun⟩
        rw [StorageCall.exec, bind_run] at hrun
        split at hrun
        · rename_i r hr
          exact append_free_ne_ok hq message now nowEnforce _ hr
        · cases hrun
  · refine iff_of_true ?_ (StorageCall.not_appendsTo hcall)
    obtain ⟨a, s', hrun, -⟩ :=
      completes_exec queuewise_exact (fun _ _ => Guards.admits_free _ _) call hcall s hs
    exact ⟨s', hrun⟩

/-- A storage with the one partition `test/0`. -/
def testStorage : Storage :=
  reached .default [.createTopic "test", .createPartition "test" 0 (some ⟨[]⟩)]

/-- `hello world`. -/
def helloWorld : Payload :=
  ⟨[104, 101, 108, 108, 111, 32, 119, 111, 114, 108, 100], by decide⟩

theorem queue?_testStorage : testStorage.queue? "test" 0 =
    some (PartitionQueue.empty .default (some ⟨[]⟩)) := by
  have htopic : (withRetentionPolicy .default).step (.createTopic "test") =
      { withRetentionPolicy .default with
        topics := (withRetentionPolicy .default).topics.insert "test" ∅ } := rfl
  have hpartition (s : Storage) (ps : HashMap Int32 PartitionQueue)
      (hs : s.topics.lookup "test" = some ps) :
      s.step (.createPartition "test" 0 (some ⟨[]⟩)) = s.setQueue "test" 0
        (PartitionQueue.empty s.retentionPolicy (some ⟨[]⟩)) := by
    simp only [step, StorageOp.exec, bind_run, createPartition_ideal, hs,
      PartitionRun.new_empty_file]
    rfl
  rw [testStorage, reached, List.foldl_cons, List.foldl_cons, List.foldl_nil, htopic,
    hpartition _ ∅ (Finmap.lookup_insert _), queue?_setQueue]
  simp [withRetentionPolicy]

/-- Appending to that partition waits for its own guard on `messages`. -/
theorem append_blocks_itself :
    (StorageCall.append "test" 0 helloWorld .unixEpoch .unixEpoch).exec .free testStorage =
      .error (.blocked (.queue "test" 0 .messages)) := by
  have hroom : (PartitionQueue.empty .default (some ⟨[]⟩)).nextOffset ≠ Int64.maxValue := by
    decide
  rw [StorageCall.exec, bind_run, append_free queue?_testStorage,
    PartitionQueue.Guarded.append_free _ _ _ _ hroom]

end Storage

end Rafka
