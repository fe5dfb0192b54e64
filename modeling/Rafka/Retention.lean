/-
Rafka/Retention.lean

Retention under any clock (`PartitionQueue` in `crates/storage/src/db.rs`).

`Rafka.Partition` reads clocks from the epoch on, since no other timestamp can be written
to a file.  A queue in memory takes every `SystemTime`: where the file refuses an entry,
the error is printed and the append goes on.  `ClockedQueue` is the queue under such
clocks, and what `Rafka.Partition` says of a queue is what happens to it under clocks from
the epoch on (`clocked_step`).  Machine arithmetic is checked, as there.

Whatever file a queue starts on and whatever the clock does, its size is the sum of the
queued payloads, so that the subtraction of a check never underflows
(`size_exact_always`).

`enforce_retention_policy` looks at the age of the first message before it looks at the
size of the queue, and leaves its loop if the clock is behind that message.  Main result
(`retains_iff`): every check of a run brings the queue down to `max_bytes` if and only if
no check finds more than that from a message on that it takes to be in the future.  What a
check removes is a prefix, and each message of it for a reason, in every run.
-/
import Rafka.Expiry
import Rafka.Partition

namespace Rafka

/-! ### The queue -/

/-- `MessageEntry`, stamped by any clock. -/
structure ClockedEntry where
  offset : Int64
  payload : Payload
  timestamp : SystemTime
  partitionId : Int32
  acknowledgedBy : Finset String
deriving DecidableEq

/-- The entry in the form in which a file takes it; the serializer refuses a
time before the epoch. -/
def ClockedEntry.toMessageEntry (e : ClockedEntry) : Option MessageEntry :=
  if h : 0 ≤ e.timestamp.nanos then
    some {
      offset := e.offset
      payload := e.payload
      timestamp := ⟨e.timestamp.nanos.toNat, by have := e.timestamp.nanos_lt; omega⟩
      partitionId := e.partitionId
      acknowledgedBy := e.acknowledgedBy }
  else none

/-- `PartitionQueue`, under any clock. -/
structure ClockedQueue where
  messages : List ClockedEntry
  nextOffset : Int64
  retentionPolicy : RetentionPolicy
  currentSize : Nat
  wal : Option WalLog
deriving DecidableEq

namespace ClockedQueue

/-- The payload bytes of a list of entries. -/
def payloadBytes (es : List ClockedEntry) : Nat := (es.map fun e => e.payload.len).sum

/-- The loop of `enforce_retention_policy`. -/
def enforceLoop (policy : RetentionPolicy) (now : SystemTime) :
    List ClockedEntry → Nat → Option (List ClockedEntry × Nat)
  | [], size => some ([], size)
  | entry :: rest, size =>
      match now.durationSince entry.timestamp with
      | some age =>
          if age > policy.maxAge ∨ size > policy.maxBytes then
            if entry.payload.len ≤ size then
              enforceLoop policy now rest (size - entry.payload.len)
            else none
          else some (entry :: rest, size)
      | none => some (entry :: rest, size)

/-- `PartitionQueue::enforce_retention_policy`. -/
def enforceRetentionPolicy (q : ClockedQueue) (now : SystemTime) : Option ClockedQueue :=
  (enforceLoop q.retentionPolicy now q.messages q.currentSize).map fun (messages, size) =>
    { q with messages := messages, currentSize := size }

/-- The log write of `append`: an entry that cannot be serialized leaves the
file as it is. -/
def appendWal (w : WalLog) (entry : ClockedEntry) : WalLog :=
  match entry.toMessageEntry with
  | some e => w.append e
  | none => w

/-- The queue after `PartitionQueue::append` has pushed `entry`. -/
def push (q : ClockedQueue) (entry : ClockedEntry) : ClockedQueue :=
  { q with
    messages := q.messages ++ [entry]
    nextOffset := entry.offset + 1
    currentSize := q.currentSize + entry.payload.len
    wal := q.wal.map fun w => appendWal w entry }

/-- `PartitionQueue::append`. -/
def append (q : ClockedQueue) (payload : Payload) (partitionId : Int32)
    (now nowEnforce : SystemTime) : Option (Int64 × ClockedQueue) :=
  if q.nextOffset = Int64.maxValue then none
  else
    let entry : ClockedEntry := ⟨q.nextOffset, payload, now, partitionId, ∅⟩
    ((q.push entry).enforceRetentionPolicy nowEnforce).map fun q' => (q.nextOffset, q')

/-- Insert `consumerId` at the first entry with this offset. -/
def acknowledgeFirst (offset : Int64) (consumerId : String) :
    List ClockedEntry → List ClockedEntry
  | [] => []
  | e :: es =>
      if e.offset = offset then
        { e with acknowledgedBy := insert consumerId e.acknowledgedBy } :: es
      else e :: acknowledgeFirst offset consumerId es

/-- `PartitionQueue::acknowledge`. -/
def acknowledge (q : ClockedQueue) (offset : Int64) (consumerId : String) : ClockedQueue :=
  { q with messages := acknowledgeFirst offset consumerId q.messages }

/-- `PartitionQueue::cleanup_acknowledged`. -/
def cleanupAcknowledged (q : ClockedQueue) : ClockedQueue :=
  let messages := q.messages.filter fun e => e.acknowledgedBy = ∅
  { q with messages := messages, currentSize := payloadBytes messages }

end ClockedQueue

/-! ### Clocks from the epoch on -/

/-- An entry as one of a queue under any clock. -/
def MessageEntry.clocked (e : MessageEntry) : ClockedEntry where
  offset := e.offset
  payload := e.payload
  timestamp := e.timestamp.toSystemTime
  partitionId := e.partitionId
  acknowledgedBy := e.acknowledgedBy

/-- A queue as one under any clock. -/
def PartitionQueue.clocked (q : PartitionQueue) : ClockedQueue where
  messages := q.messages.map MessageEntry.clocked
  nextOffset := q.nextOffset
  retentionPolicy := q.retentionPolicy
  currentSize := q.currentSize
  wal := q.wal

/-- One operation on a partition, with the readings of any clock. -/
inductive ClockedOp
  | append (payload : Payload) (partitionId : Int32) (now nowEnforce : SystemTime)
  | acknowledge (offset : Int64) (consumerId : String)
  | cleanupAcknowledged
  | enforceRetentionPolicy (now : SystemTime)
  | restart (retentionPolicy : RetentionPolicy)

/-- An operation under a clock from the epoch on. -/
def PartitionOp.clocked : PartitionOp → ClockedOp
  | .append payload partitionId now nowEnforce =>
      .append payload partitionId now.toSystemTime nowEnforce.toSystemTime
  | .acknowledge offset consumerId => .acknowledge offset consumerId
  | .cleanupAcknowledged => .cleanupAcknowledged
  | .enforceRetentionPolicy now => .enforceRetentionPolicy now.toSystemTime
  | .restart retentionPolicy => .restart retentionPolicy

/-- One operation.  An operation that panics leaves the queue as it was. -/
def ClockedQueue.step (q : ClockedQueue) : ClockedOp → ClockedQueue
  | .append payload partitionId now nowEnforce =>
      ((q.append payload partitionId now nowEnforce).map Prod.snd).getD q
  | .acknowledge offset consumerId => q.acknowledge offset consumerId
  | .cleanupAcknowledged => q.cleanupAcknowledged
  | .enforceRetentionPolicy now => (q.enforceRetentionPolicy now).getD q
  | .restart retentionPolicy =>
      ((PartitionQueue.new retentionPolicy q.wal).map PartitionQueue.clocked).getD q

namespace PartitionQueue

theorem payloadBytes_clocked (es : List MessageEntry) :
    ClockedQueue.payloadBytes (es.map MessageEntry.clocked) = payloadBytes es := by
  rw [ClockedQueue.payloadBytes, List.map_map]
  rfl

theorem clocked_enforceLoop (policy : RetentionPolicy) (now : EpochTime)
    (ms : List MessageEntry) (size : Nat) :
    ClockedQueue.enforceLoop policy now.toSystemTime (ms.map MessageEntry.clocked) size =
      (enforceLoop policy now ms size).map fun (kept, size) =>
        (kept.map MessageEntry.clocked, size) := by
  induction ms generalizing size with
  | nil => rfl
  | cons e ms ih =>
      have hage : now.toSystemTime.durationSince e.clocked.timestamp =
          now.durationSince e.timestamp := rfl
      have hlen : e.clocked.payload.len = e.payload.len := rfl
      rw [List.map_cons, ClockedQueue.enforceLoop, enforceLoop, hage, hlen]
      cases now.durationSince e.timestamp with
      | none => rfl
      | some age =>
          dsimp only
          split_ifs
          · exact ih _
          · rfl
          · rfl

theorem clocked_enforceRetentionPolicy (q : PartitionQueue) (now : EpochTime) :
    q.clocked.enforceRetentionPolicy now.toSystemTime =
      (q.enforceRetentionPolicy now).map clocked := by
  rw [ClockedQueue.enforceRetentionPolicy, enforceRetentionPolicy]
  show (ClockedQueue.enforceLoop q.retentionPolicy now.toSystemTime
    (q.messages.map MessageEntry.clocked) q.currentSize).map _ = _
  rw [clocked_enforceLoop, Option.map_map, Option.map_map]
  rfl

/-- A file takes every entry that is stamped from the epoch on. -/
theorem toMessageEntry_clocked (e : MessageEntry) : e.clocked.toMessageEntry = some e := by
  have hnanos : (0 : Int) ≤ e.clocked.timestamp.nanos := Int.natCast_nonneg _
  rw [ClockedEntry.toMessageEntry, dif_pos hnanos]
  rfl

theorem clocked_push (q : PartitionQueue) (entry : MessageEntry) :
    q.clocked.push entry.clocked = (q.push entry).clocked := by
  have hwal : (fun w => ClockedQueue.appendWal w entry.clocked) = fun w => w.append entry := by
    funext w
    rw [ClockedQueue.appendWal, toMessageEntry_clocked]
  simp only [ClockedQueue.push, push, clocked, hwal, List.map_append, List.map_cons, List.map_nil]
  rfl

theorem clocked_append (q : PartitionQueue) (payload : Payload) (partitionId : Int32)
    (now nowEnforce : EpochTime) :
    q.clocked.append payload partitionId now.toSystemTime nowEnforce.toSystemTime =
      (q.append payload partitionId now nowEnforce).map fun (offset, q') =>
        (offset, q'.clocked) := by
  rw [ClockedQueue.append, append]
  have hnext : q.clocked.nextOffset = q.nextOffset := rfl
  rw [hnext]
  split_ifs
  · rfl
  · have hentry : (⟨q.nextOffset, payload, now.toSystemTime, partitionId, ∅⟩ : ClockedEntry) =
        (⟨q.nextOffset, payload, now, partitionId, ∅⟩ : MessageEntry).clocked := rfl
    dsimp only
    rw [hentry, clocked_push, clocked_enforceRetentionPolicy, Option.map_map, Option.map_map]
    rfl

theorem clocked_acknowledge (q : PartitionQueue) (offset : Int64) (consumerId : String) :
    q.clocked.acknowledge offset consumerId = (q.acknowledge offset consumerId).clocked := by
  have hfirst : ∀ es : List MessageEntry,
      ClockedQueue.acknowledgeFirst offset consumerId (es.map MessageEntry.clocked) =
        (acknowledgeFirst offset consumerId es).map MessageEntry.clocked := by
    intro es
    induction es with
    | nil => rfl
    | cons e es ih =>
        have hoffset : e.clocked.offset = e.offset := rfl
        rw [List.map_cons, ClockedQueue.acknowledgeFirst, acknowledgeFirst, hoffset, ih]
        split_ifs <;> rfl
  simp only [ClockedQueue.acknowledge, acknowledge, clocked, hfirst]

theorem clocked_cleanupAcknowledged (q : PartitionQueue) :
    q.clocked.cleanupAcknowledged = q.cleanupAcknowledged.clocked := by
  have hfilter : (q.messages.map MessageEntry.clocked).filter
      (fun e => decide (e.acknowledgedBy = ∅)) =
        (q.messages.filter fun e => decide (e.acknowledgedBy = ∅)).map MessageEntry.clocked := by
    rw [List.filter_map]
    rfl
  simp only [ClockedQueue.cleanupAcknowledged, cleanupAcknowledged, clocked, hfilter,
    payloadBytes_clocked]

/-- **Under clocks from the epoch on** the two models of a queue do the same. -/
theorem clocked_step (s : PartitionRun) (op : PartitionOp) :
    (s.step op).queue.clocked = s.queue.clocked.step op.clocked := by
  cases op with
  | append payload partitionId now nowEnforce =>
      simp only [PartitionOp.clocked, ClockedQueue.step, clocked_append, PartitionRun.step]
      cases s.queue.append payload partitionId now nowEnforce <;> rfl
  | acknowledge offset consumerId =>
      exact (clocked_acknowledge s.queue offset consumerId).symm
  | cleanupAcknowledged => exact (clocked_cleanupAcknowledged s.queue).symm
  | enforceRetentionPolicy now =>
      simp only [PartitionOp.clocked, ClockedQueue.step, clocked_enforceRetentionPolicy,
        PartitionRun.step]
      cases s.queue.enforceRetentionPolicy now <;> rfl
  | restart policy =>
      have hwal : s.queue.clocked.wal = s.queue.wal := rfl
      simp only [PartitionOp.clocked, ClockedQueue.step, hwal, PartitionRun.step]
      cases PartitionQueue.new policy s.queue.wal <;> rfl

end PartitionQueue

/-! ### What a check does -/

namespace ClockedQueue

/-- The size of the queue is the size of its messages. -/
def Exact (q : ClockedQueue) : Prop := q.currentSize = payloadBytes q.messages

/-- The retention check at `now`. -/
def check (policy : RetentionPolicy) (now : SystemTime) : Expiry.Check ClockedEntry where
  size e := e.payload.len
  age? e := now.durationSince e.timestamp
  maxAge := policy.maxAge
  maxTotal := policy.maxBytes

theorem enforceLoop_eq_drop (policy : RetentionPolicy) (now : SystemTime)
    (ms : List ClockedEntry) (size : Nat) :
    enforceLoop policy now ms size = (check policy now).drop ms size := by
  induction ms generalizing size with
  | nil => rfl
  | cons e ms ih =>
      rw [enforceLoop, Expiry.Check.drop, ← ih]
      rfl

/-- What `enforce_retention_policy` does to a queue of exact size. -/
theorem Exact.enforceRetentionPolicy {q : ClockedQueue} (hq : q.Exact) (now : SystemTime) :
    q.enforceRetentionPolicy now = some { q with
      messages := (check q.retentionPolicy now).unexpired q.messages
      currentSize := payloadBytes ((check q.retentionPolicy now).unexpired q.messages) } := by
  have hsize : q.currentSize = payloadBytes q.messages := hq
  have hdrop := Expiry.Check.drop_total (check q.retentionPolicy now) q.messages
  rw [ClockedQueue.enforceRetentionPolicy, hsize, enforceLoop_eq_drop]
  exact congrArg _ hdrop

theorem Exact.push {q : ClockedQueue} (hq : q.Exact) (entry : ClockedEntry) :
    (q.push entry).Exact := by
  have hsize : q.currentSize = payloadBytes q.messages := hq
  simp [Exact, ClockedQueue.push, hsize, payloadBytes]

/-- What `append` does to a queue of exact size whose counter has room. -/
theorem Exact.append {q : ClockedQueue} (hq : q.Exact) (payload : Payload)
    (partitionId : Int32) (now nowEnforce : SystemTime)
    (hroom : q.nextOffset ≠ Int64.maxValue) :
    q.append payload partitionId now nowEnforce = some (q.nextOffset,
      { q.push ⟨q.nextOffset, payload, now, partitionId, ∅⟩ with
        messages := (check q.retentionPolicy nowEnforce).unexpired
          (q.messages ++ [⟨q.nextOffset, payload, now, partitionId, ∅⟩])
        currentSize := payloadBytes ((check q.retentionPolicy nowEnforce).unexpired
          (q.messages ++ [⟨q.nextOffset, payload, now, partitionId, ∅⟩])) }) := by
  rw [ClockedQueue.append, if_neg hroom]
  dsimp only
  rw [(hq.push _).enforceRetentionPolicy]
  rfl

/-- A queue that has just been recovered has its exact size. -/
theorem Exact.of_new {policy : RetentionPolicy} {wal : Option WalLog} {q : PartitionQueue}
    (hnew : PartitionQueue.new policy wal = some q) : q.clocked.Exact := by
  have hsize := PartitionQueue.size_of_new hnew
  exact hsize.trans (PartitionQueue.payloadBytes_clocked q.messages).symm

/-- **Step lemma.**  Every operation keeps the size exact. -/
theorem Exact.step {q : ClockedQueue} (hq : q.Exact) (op : ClockedOp) : (q.step op).Exact := by
  cases op with
  | append payload partitionId now nowEnforce =>
      by_cases hmax : q.nextOffset = Int64.maxValue
      · have hnone : q.append payload partitionId now nowEnforce = none := if_pos hmax
        simp only [ClockedQueue.step, hnone]
        exact hq
      · simp only [ClockedQueue.step, hq.append payload partitionId now nowEnforce hmax]
        rfl
  | acknowledge offset consumerId =>
      have hmap : ∀ es : List ClockedEntry,
          payloadBytes (acknowledgeFirst offset consumerId es) = payloadBytes es := by
        intro es
        induction es with
        | nil => rfl
        | cons e es ih =>
            rw [acknowledgeFirst]
            split_ifs
            · rfl
            · rw [payloadBytes, List.map_cons, List.sum_cons]
              exact congrArg (e.payload.len + ·) ih
      have hsize : q.currentSize = payloadBytes q.messages := hq
      exact hsize.trans (hmap q.messages).symm
  | cleanupAcknowledged => rfl
  | enforceRetentionPolicy now =>
      simp only [ClockedQueue.step, hq.enforceRetentionPolicy now, Option.getD_some]
      rfl
  | restart policy =>
      simp only [ClockedQueue.step]
      cases hnew : PartitionQueue.new policy q.wal with
      | none => exact hq
      | some q' => exact Exact.of_new hnew

/-! ### Bytes are counted exactly

The size is kept by `append` and retention step by step, recomputed by
cleanup and rebuilt by recovery.  This is about every log file, also one that
no append has written. -/

/-- No subtraction of the retention check underflows, whether it is called
alone or by an append. -/
def NeverUnderflows (q : ClockedQueue) : Prop :=
  ∀ now, q.enforceRetentionPolicy now ≠ none ∧
    ∀ entry, (q.push entry).enforceRetentionPolicy now ≠ none

theorem Exact.neverUnderflows {q : ClockedQueue} (hq : q.Exact) : q.NeverUnderflows := by
  intro now
  constructor
  · rw [hq.enforceRetentionPolicy now]
    exact Option.some_ne_none _
  · intro entry
    rw [(hq.push entry).enforceRetentionPolicy now]
    exact Option.some_ne_none _

/-- **Byte accounting is exact.**  Whatever log file a partition is opened
on and whatever the clock does, along every run its size is the number of
bytes in its queue, and the retention check never underflows. -/
theorem size_exact_always {policy : RetentionPolicy} {wal : Option WalLog} {q : PartitionQueue}
    (hnew : PartitionQueue.new policy wal = some q) (ops : List ClockedOp) :
    Always step (fun q => q.Exact ∧ q.NeverUnderflows) q.clocked ops := by
  have hall : Along step (fun _ _ => True) q.clocked ops := .of_forall fun _ _ => trivial
  have hrun := Always.of_along (I := Exact) (Exact.of_new hnew) hall
    fun q op hq _ => hq.step op
  exact hrun.mono fun q hq => ⟨hq, hq.neverUnderflows⟩

/-- A message of three bytes, as a log file holds it. -/
def threeBytes : MessageEntry := ⟨0, ⟨[1, 2, 3], by decide⟩, .unixEpoch, 0, ∅⟩

/-- A hundred seconds after the epoch. -/
def later : SystemTime := ⟨100000000000, by decide, by decide⟩

/-- Five seconds before the epoch. -/
def earlier : SystemTime := ⟨-5000000000, by decide, by decide⟩

/-- A partition with room for four bytes, opened on a file with one message.  The
clock is behind that message when the next one comes, so six bytes stay, and the
file refuses an entry from before the epoch; the check that comes later drops the
first message and counts on exactly. -/
theorem size_exact_always_threeBytes :
    PartitionQueue.new ⟨Duration.fromSecs 3600, 4⟩ (some ⟨WalLog.frames [threeBytes]⟩) =
        some ⟨[threeBytes], 1, ⟨Duration.fromSecs 3600, 4⟩, 3,
          some ⟨WalLog.frames [threeBytes]⟩⟩ ∧
      Always step (fun q => q.Exact ∧ q.NeverUnderflows)
        (PartitionQueue.clocked ⟨[threeBytes], 1, ⟨Duration.fromSecs 3600, 4⟩, 3,
          some ⟨WalLog.frames [threeBytes]⟩⟩)
        [.append threeBytes.payload 0 earlier earlier, .enforceRetentionPolicy later,
          .acknowledge 1 "consumer", .cleanupAcknowledged, .enforceRetentionPolicy earlier] := by
  have hnew : PartitionQueue.new ⟨Duration.fromSecs 3600, 4⟩
      (some ⟨WalLog.frames [threeBytes]⟩) =
      some ⟨[threeBytes], 1, ⟨Duration.fromSecs 3600, 4⟩, 3,
        some ⟨WalLog.frames [threeBytes]⟩⟩ := by
    have hframes : PartitionQueue.new ⟨Duration.fromSecs 3600, 4⟩
        (some ⟨WalLog.frames [threeBytes] ++ []⟩) = _ :=
      PartitionQueue.new_frames ⟨Duration.fromSecs 3600, 4⟩ (by simp [threeBytes]) (by decide)
        (by simp)
    rw [List.append_nil] at hframes
    rw [hframes]
    decide
  exact ⟨hnew, size_exact_always hnew _⟩

/-! ### The size bound -/

/-- A check at `now` has left `after` of the messages `before`: no more than
`max_bytes`, without a beginning of which each message was too old, or had too
much behind it, when it was the first. -/
structure Retains (policy : RetentionPolicy) (now : SystemTime)
    (before after : List ClockedEntry) : Prop where
  bytes : payloadBytes after ≤ policy.maxBytes
  removed : ∃ removed, removed ++ after = before ∧
    ∀ front e behind, removed = front ++ e :: behind →
      (∃ age, now.durationSince e.timestamp = some age ∧ policy.maxAge < age) ∨
        policy.maxBytes < payloadBytes (e :: behind ++ after)

/-- An operation with a retention check returns, and the check does what it
should; only a counter at its end makes an append panic. -/
def RetainsAt (q : ClockedQueue) : ClockedOp → Prop
  | .append payload partitionId now nowEnforce =>
      match q.append payload partitionId now nowEnforce with
      | some (_, q') => Retains q.retentionPolicy nowEnforce
          (q.messages ++ [⟨q.nextOffset, payload, now, partitionId, ∅⟩]) q'.messages
      | none => q.nextOffset = Int64.maxValue
  | .enforceRetentionPolicy now =>
      match q.enforceRetentionPolicy now with
      | some q' => Retains q.retentionPolicy now q.messages q'.messages
      | none => False
  | _ => True

/-- From no message on that is stamped after `now` there is more than
`max_bytes`. -/
def NotHeldUp (policy : RetentionPolicy) (now : SystemTime) (ms : List ClockedEntry) : Prop :=
  ∀ e behind, e :: behind <:+ ms → now.durationSince e.timestamp = none →
    payloadBytes (e :: behind) ≤ policy.maxBytes

instance (policy : RetentionPolicy) (now : SystemTime) (ms : List ClockedEntry) :
    Decidable (NotHeldUp policy now ms) :=
  decidable_of_iff (∀ t ∈ ms.tails, ∀ e ∈ t.head?, now.durationSince e.timestamp = none →
    payloadBytes t ≤ policy.maxBytes) <| by
  constructor
  · intro h e behind hsuffix hage
    exact h (e :: behind) ((List.mem_tails _ _).mpr hsuffix) e rfl hage
  · intro h t ht e he hage
    obtain ⟨behind, rfl⟩ := List.head?_eq_some_iff.mp he
    exact h e behind ((List.mem_tails _ _).mp ht) hage

/-- The same of the messages that an operation checks. -/
def NotHeldUpAt (q : ClockedQueue) : ClockedOp → Prop
  | .append payload partitionId now nowEnforce => q.nextOffset ≠ Int64.maxValue →
      NotHeldUp q.retentionPolicy nowEnforce
        (q.messages ++ [⟨q.nextOffset, payload, now, partitionId, ∅⟩])
  | .enforceRetentionPolicy now => NotHeldUp q.retentionPolicy now q.messages
  | _ => True

instance (q : ClockedQueue) : (op : ClockedOp) → Decidable (q.NotHeldUpAt op)
  | .append payload partitionId now nowEnforce =>
      inferInstanceAs (Decidable (q.nextOffset ≠ Int64.maxValue →
        NotHeldUp q.retentionPolicy nowEnforce
          (q.messages ++ [⟨q.nextOffset, payload, now, partitionId, ∅⟩])))
  | .enforceRetentionPolicy now =>
      inferInstanceAs (Decidable (NotHeldUp q.retentionPolicy now q.messages))
  | .acknowledge _ _ => .isTrue trivial
  | .cleanupAcknowledged => .isTrue trivial
  | .restart _ => .isTrue trivial

/-- One check: what it removes it may remove, and the bound is met unless
messages from the future hold it up. -/
theorem retains_unexpired_iff (policy : RetentionPolicy) (now : SystemTime)
    (ms : List ClockedEntry) :
    Retains policy now ms ((check policy now).unexpired ms) ↔ NotHeldUp policy now ms := by
  have hbytes : payloadBytes ((check policy now).unexpired ms) ≤ policy.maxBytes ↔
      NotHeldUp policy now ms :=
    Expiry.Check.total_unexpired_le_iff (c := check policy now)
  rw [← hbytes]
  constructor
  · exact fun h => h.bytes
  · intro hle
    obtain ⟨removed, hremoved⟩ := Expiry.Check.unexpired_suffix (check policy now) ms
    refine ⟨hle, removed, hremoved, ?_⟩
    intro front e behind hsplit
    obtain ⟨age, hage, hlate | hlate⟩ := Expiry.Check.expired_of_append hremoved hsplit
    · exact .inl ⟨age, hage, hlate⟩
    · exact .inr hlate

/-- **Step lemma.** -/
theorem Exact.retainsAt_iff {q : ClockedQueue} (hq : q.Exact) (op : ClockedOp) :
    q.RetainsAt op ↔ q.NotHeldUpAt op := by
  cases op with
  | append payload partitionId now nowEnforce =>
      rw [RetainsAt, NotHeldUpAt]
      by_cases hmax : q.nextOffset = Int64.maxValue
      · have hnone : q.append payload partitionId now nowEnforce = none := if_pos hmax
        rw [hnone]
        exact iff_of_true hmax fun hroom => absurd hmax hroom
      · rw [hq.append payload partitionId now nowEnforce hmax]
        exact (retains_unexpired_iff _ _ _).trans ⟨fun h _ => h, fun h => h hmax⟩
  | enforceRetentionPolicy now =>
      rw [RetainsAt, NotHeldUpAt, hq.enforceRetentionPolicy now]
      exact retains_unexpired_iff _ _ _
  | _ => exact iff_of_true trivial trivial

/-- **The size bound holds whatever the clock does, unless the future holds it
up.**  From every state of a partition and for every sequence of clock
readings, each check of a run removes a prefix, each message of it for a
reason, and leaves at most `max_bytes`, if and only if no check finds more
than `max_bytes` from a message on that is stamped after its reading. -/
theorem retains_iff {q : ClockedQueue} (hq : q.Exact) (ops : List ClockedOp) :
    Along step RetainsAt q ops ↔ Along step NotHeldUpAt q ops :=
  along_congr (I := Exact) hq (fun _ op hq => hq.step op) fun _ op hq => hq.retainsAt_iff op

/-- A partition with room for four bytes and no file, whose messages may get
an hour old. -/
def fourBytes : ClockedQueue := ⟨[], 0, ⟨Duration.fromSecs 3600, 4⟩, 0, none⟩

/-- Append three bytes at one time. -/
def appendThree (now : SystemTime) : ClockedOp :=
  .append threeBytes.payload 0 now now

/-- `retains_iff` where the clock steps back to before the epoch and forth
again: the one message in the queue fits, and goes when the next one comes. -/
theorem retains_iff_backAndForth : fourBytes.Exact ∧
    Along step RetainsAt fourBytes
      [appendThree later, .enforceRetentionPolicy earlier, appendThree later] := by
  have hexact : fourBytes.Exact := rfl
  exact ⟨hexact, (retains_iff hexact _).mpr (by decide)⟩

/-- A second message, appended after the clock has stepped back, finds the
first one in the future: six bytes stay where there is room for four. -/
theorem future_message_holds_up_retention :
    payloadBytes ([appendThree later, appendThree earlier].foldl step fourBytes).messages = 6 ∧
      ¬ ∀ (q : ClockedQueue) (ops : List ClockedOp), q.Exact → Along step RetainsAt q ops := by
  refine ⟨by decide, ?_⟩
  intro h
  obtain ⟨-, hsecond, -⟩ := h fourBytes [appendThree later, appendThree earlier] rfl
  have hexact : (fourBytes.step (appendThree later)).Exact :=
    Exact.step (q := fourBytes) rfl (appendThree later)
  have hnot : ¬ (fourBytes.step (appendThree later)).NotHeldUpAt (appendThree earlier) := by
    decide
  exact hnot ((hexact.retainsAt_iff (appendThree earlier)).mp hsecond)

end ClockedQueue

end Rafka
