/-
Rafka/Partition.lean

The queue of one partition (`PartitionQueue` in `crates/storage/src/db.rs`).

The counter `next_offset` is not stored anywhere.  `PartitionQueue::new`
rebuilds it, together with the whole queue, from the log file; in between,
retention and cleanup remove messages from the queue but never from the
file.  Lock acquisition is left out here: `Rafka.Storage` follows the guards.

Machine arithmetic is checked, here and wherever a module does not say otherwise:
where an `i64` increment overflows, or the size would drop below zero, the
operation panics (`none`), as it does in a build with overflow checks.
(`Rafka.Replication`, `Rafka.RateCounter` and `Rafka.Health` cover both builds.)

`PartitionRun` is a partition over its life: the queue together with a
record of what its appends returned and of the entries they made.  Main
result (`offsets_never_reused`): over any run of operations and restarts
from an empty file, the `i`-th append returns offset `i`, the queue stays
sorted below the counter, and a restart brings back the whole history.
-/
import Mathlib.Algebra.BigOperators.Group.List.Basic
import Mathlib.Data.List.Sublists
import Rafka.Trace
import Rafka.Wal

namespace Rafka

/-! ### The queue and its operations -/

/-- `RetentionPolicy`. -/
structure RetentionPolicy where
  maxAge : Duration
  maxBytes : Nat
deriving DecidableEq

/-- `RetentionPolicy::default`: seven days, one gigabyte. -/
def RetentionPolicy.default : RetentionPolicy where
  maxAge := Duration.fromSecs (7 * 24 * 60 * 60)
  maxBytes := 1024 * 1024 * 1024

/-- `StoredMessage`. -/
structure StoredMessage where
  offset : Int64
  payload : Payload
  timestamp : EpochTime
  partitionId : Int32
deriving DecidableEq

/-- `MessageEntry::to_stored_message`. -/
def MessageEntry.toStoredMessage (e : MessageEntry) : StoredMessage where
  offset := e.offset
  payload := e.payload
  timestamp := e.timestamp
  partitionId := e.partitionId

/-- The payload bytes of a list of entries. -/
def payloadBytes (es : List MessageEntry) : Nat := (es.map fun e => e.payload.len).sum

/-- `PartitionQueue`; the log is absent if its file could not be opened. -/
structure PartitionQueue where
  messages : List MessageEntry
  nextOffset : Int64
  retentionPolicy : RetentionPolicy
  currentSize : Nat
  wal : Option WalLog
deriving DecidableEq

namespace PartitionQueue

/-- The variables of `PartitionQueue::new` before anything is recovered. -/
def empty (retentionPolicy : RetentionPolicy) (wal : Option WalLog) : PartitionQueue where
  messages := []
  nextOffset := 0
  retentionPolicy := retentionPolicy
  currentSize := 0
  wal := wal

/-- One turn of the recovery loop; `entry.offset + 1` may overflow. -/
def recoverEntry (q : PartitionQueue) (entry : MessageEntry) : Option PartitionQueue :=
  let push (nextOffset : Int64) : PartitionQueue :=
    { q with
      messages := q.messages ++ [entry]
      nextOffset := nextOffset
      currentSize := q.currentSize + entry.payload.len }
  if q.nextOffset ≤ entry.offset then
    if entry.offset = Int64.maxValue then none else some (push (entry.offset + 1))
  else some (push q.nextOffset)

/-- `PartitionQueue::new` over the log file `wal`.  A file that cannot be
read counts as an empty one, but stays in use. -/
def new (retentionPolicy : RetentionPolicy) (wal : Option WalLog) : Option PartitionQueue :=
  match wal with
  | none => some (empty retentionPolicy none)
  | some w =>
      match w.readAll with
      | .ok entries => entries.foldlM recoverEntry (empty retentionPolicy (some w))
      | .error .capacityOverflow => none
      | .error _ => some (empty retentionPolicy (some w))

/-- The loop of `enforce_retention_policy`: drop messages from the front
while the first one is too old or the rest too large.  The clock may be
behind the first message, which ends the loop. -/
def enforceLoop (policy : RetentionPolicy) (now : EpochTime) :
    List MessageEntry → Nat → Option (List MessageEntry × Nat)
  | [], size => some ([], size)
  | entry :: rest, size =>
      match now.durationSince entry.timestamp with
      | some age =>
          if age > policy.maxAge ∨ size > policy.maxBytes then
            if entry.payload.len ≤ size then
              enforceLoop policy now rest (size - entry.payload.len)
            else none
          else some (entry :: rest, size)
      | none => some (entry :: rest, size)

/-- `PartitionQueue::enforce_retention_policy`. -/
def enforceRetentionPolicy (q : PartitionQueue) (now : EpochTime) : Option PartitionQueue :=
  (enforceLoop q.retentionPolicy now q.messages q.currentSize).map fun (messages, size) =>
    { q with messages := messages, currentSize := size }

/-- The queue after `PartitionQueue::append` has pushed `entry`. -/
def push (q : PartitionQueue) (entry : MessageEntry) : PartitionQueue :=
  { q with
    messages := q.messages ++ [entry]
    nextOffset := entry.offset + 1
    currentSize := q.currentSize + entry.payload.len
    wal := q.wal.map fun w => w.append entry }

/-- `PartitionQueue::append`, with the clock readings for the entry and for
the retention check.  Nothing has changed yet when `next_offset` overflows. -/
def append (q : PartitionQueue) (payload : Payload) (partitionId : Int32)
    (now nowEnforce : EpochTime) : Option (Int64 × PartitionQueue) :=
  if q.nextOffset = Int64.maxValue then none
  else
    let entry : MessageEntry := ⟨q.nextOffset, payload, now, partitionId, ∅⟩
    ((q.push entry).enforceRetentionPolicy nowEnforce).map fun q' => (q.nextOffset, q')

/-- `PartitionQueue::read_from`. -/
def readFrom (q : PartitionQueue) (startOffset : Int64) (maxMessages : Nat) :
    List MessageEntry :=
  (q.messages.filter fun e => startOffset ≤ e.offset).take maxMessages

/-- Insert `consumerId` at the first entry with this offset. -/
def acknowledgeFirst (offset : Int64) (consumerId : String) :
    List MessageEntry → List MessageEntry
  | [] => []
  | e :: es =>
      if e.offset = offset then
        { e with acknowledgedBy := insert consumerId e.acknowledgedBy } :: es
      else e :: acknowledgeFirst offset consumerId es

/-- `PartitionQueue::acknowledge`. -/
def acknowledge (q : PartitionQueue) (offset : Int64) (consumerId : String) :
    PartitionQueue :=
  { q with messages := acknowledgeFirst offset consumerId q.messages }

/-- `PartitionQueue::cleanup_acknowledged`. -/
def cleanupAcknowledged (q : PartitionQueue) : PartitionQueue :=
  let messages := q.messages.filter fun e => e.acknowledgedBy = ∅
  { q with messages := messages, currentSize := payloadBytes messages }

end PartitionQueue

/-! ### Retention drops a prefix -/

@[simp] theorem payloadBytes_cons (e : MessageEntry) (es : List MessageEntry) :
    payloadBytes (e :: es) = e.payload.len + payloadBytes es := by
  simp [payloadBytes]

namespace PartitionQueue

/-- With an exact size the loop never underflows: it drops some prefix of
the queue, and the size stays exact. -/
theorem enforceLoop_spec (policy : RetentionPolicy) (now : EpochTime)
    (ms : List MessageEntry) :
    ∃ kept, kept <:+ ms ∧
      enforceLoop policy now ms (payloadBytes ms) = some (kept, payloadBytes kept) := by
  induction ms with
  | nil => exact ⟨[], List.suffix_rfl, rfl⟩
  | cons e ms ih =>
      obtain ⟨kept, hkept, hloop⟩ := ih
      simp only [enforceLoop]
      cases now.durationSince e.timestamp with
      | none => exact ⟨e :: ms, List.suffix_rfl, rfl⟩
      | some age =>
          dsimp only
          split_ifs with hdrop hle
          · -- the entry goes, and its bytes were counted in the size
            refine ⟨kept, hkept.trans (List.suffix_cons e ms), ?_⟩
            rw [payloadBytes_cons, Nat.add_sub_cancel_left, hloop]
          · exact absurd (by simp) hle
          · exact ⟨e :: ms, List.suffix_rfl, rfl⟩

/-- What `enforce_retention_policy` does to a queue of exact size. -/
theorem enforceRetentionPolicy_spec {q : PartitionQueue} (now : EpochTime)
    (h : q.currentSize = payloadBytes q.messages) :
    ∃ kept, kept <:+ q.messages ∧ q.enforceRetentionPolicy now =
      some { q with messages := kept, currentSize := payloadBytes kept } := by
  obtain ⟨kept, hkept, hloop⟩ := enforceLoop_spec q.retentionPolicy now q.messages
  refine ⟨kept, hkept, ?_⟩
  rw [enforceRetentionPolicy, h, hloop]
  rfl

/-- What `append` does to a queue of exact size whose counter has room. -/
theorem append_spec {q : PartitionQueue} (payload : Payload) (partitionId : Int32)
    (now nowEnforce : EpochTime) (h : q.currentSize = payloadBytes q.messages)
    (hroom : q.nextOffset ≠ Int64.maxValue) :
    ∃ kept, kept <:+ q.messages ++ [⟨q.nextOffset, payload, now, partitionId, ∅⟩] ∧
      q.append payload partitionId now nowEnforce = some (q.nextOffset,
        { q.push ⟨q.nextOffset, payload, now, partitionId, ∅⟩ with
          messages := kept
          currentSize := payloadBytes kept }) := by
  have hsize : (q.push ⟨q.nextOffset, payload, now, partitionId, ∅⟩).currentSize =
      payloadBytes (q.push ⟨q.nextOffset, payload, now, partitionId, ∅⟩).messages := by
    simp [push, h, payloadBytes]
  obtain ⟨kept, hkept, henforce⟩ := enforceRetentionPolicy_spec nowEnforce hsize
  refine ⟨kept, hkept, ?_⟩
  rw [append, if_neg hroom]
  dsimp only
  rw [henforce]
  rfl

/-- An append that returns has found room in the counter. -/
theorem room_of_append {q : PartitionQueue} {payload : Payload} {partitionId : Int32}
    {now nowEnforce : EpochTime} {r : Int64 × PartitionQueue}
    (h : q.append payload partitionId now nowEnforce = some r) :
    q.nextOffset ≠ Int64.maxValue := by
  intro hmax
  rw [append, if_pos hmax] at h
  cases h

/-! ### Recovery -/

/-- The counter after entries with these offsets have been recovered. -/
def offsetAfter (n : Int64) (es : List MessageEntry) : Int64 :=
  es.foldl (fun n e => if n ≤ e.offset then e.offset + 1 else n) n

/-- The recovery loop, where it does not panic, keeps every entry and counts
its bytes. -/
theorem of_foldlM_recoverEntry {q q' : PartitionQueue} {es : List MessageEntry}
    (h : es.foldlM recoverEntry q = some q') :
    q'.messages = q.messages ++ es ∧ q'.currentSize = q.currentSize + payloadBytes es := by
  induction es generalizing q with
  | nil =>
      cases h
      exact ⟨(List.append_nil _).symm, rfl⟩
  | cons e es ih =>
      rw [List.foldlM_cons, Option.bind_eq_bind, Option.bind_eq_some_iff] at h
      obtain ⟨q₁, hstep, hrest⟩ := h
      have hpush : q₁.messages = q.messages ++ [e] ∧
          q₁.currentSize = q.currentSize + e.payload.len := by
        simp only [recoverEntry] at hstep
        split_ifs at hstep <;> cases hstep <;> exact ⟨rfl, rfl⟩
      obtain ⟨hmessages, hsize⟩ := ih hrest
      constructor
      · rw [hmessages, hpush.1, List.append_assoc, List.singleton_append]
      · rw [hsize, hpush.2, payloadBytes_cons, Nat.add_assoc]

/-- A new queue has its exact size. -/
theorem size_of_new {policy : RetentionPolicy} {wal : Option WalLog} {q : PartitionQueue}
    (h : new policy wal = some q) : q.currentSize = payloadBytes q.messages := by
  unfold new at h
  split at h
  · cases h
    rfl
  · split at h
    · obtain ⟨hmessages, hsize⟩ := of_foldlM_recoverEntry h
      rw [hmessages, hsize]
      simp [empty]
    · cases h
    · cases h
      rfl

/-- A queue that comes back with messages has read its whole file. -/
theorem readAll_of_new {policy : RetentionPolicy} {w : WalLog} {q : PartitionQueue}
    (h : new policy (some w) = some q) (hne : q.messages ≠ []) :
    w.readAll = .ok q.messages := by
  simp only [new] at h
  split at h
  · rename_i entries hread
    rw [hread, (of_foldlM_recoverEntry h).1]
    rfl
  · cases h
  · cases h
    exact absurd rfl hne

/-- The recovery loop keeps every entry, in order. -/
theorem foldlM_recoverEntry (q : PartitionQueue) (es : List MessageEntry)
    (hroom : ∀ e ∈ es, e.offset ≠ Int64.maxValue) :
    es.foldlM recoverEntry q = some { q with
      messages := q.messages ++ es
      nextOffset := offsetAfter q.nextOffset es
      currentSize := q.currentSize + payloadBytes es } := by
  induction es generalizing q with
  | nil => simp [offsetAfter, payloadBytes]
  | cons e es ih =>
      have hstep : recoverEntry q e = some { q with
          messages := q.messages ++ [e]
          nextOffset := if q.nextOffset ≤ e.offset then e.offset + 1 else q.nextOffset
          currentSize := q.currentSize + e.payload.len } := by
        simp only [recoverEntry, hroom e List.mem_cons_self, if_false]
        split_ifs <;> rfl
      rw [List.foldlM_cons, hstep, Option.bind_eq_bind, Option.bind_some,
        ih _ fun e' he' => hroom e' (List.mem_cons_of_mem e he')]
      simp [offsetAfter, Nat.add_assoc]

/-- The file neither asks for more memory than there can be nor holds an entry at
the last offset. -/
def Recoverable (wal : Option WalLog) : Prop :=
  ∀ w, wal = some w → w.readAll ≠ .error .capacityOverflow ∧
    ∀ entries, w.readAll = .ok entries → ∀ e ∈ entries, e.offset ≠ Int64.maxValue

/-- The recovery loop panics at an entry with the last offset. -/
theorem ne_maxValue_of_foldlM {q q' : PartitionQueue} {es : List MessageEntry}
    (h : es.foldlM recoverEntry q = some q') : ∀ e ∈ es, e.offset ≠ Int64.maxValue := by
  induction es generalizing q with
  | nil => simp
  | cons e es ih =>
      rw [List.foldlM_cons, Option.bind_eq_bind, Option.bind_eq_some_iff] at h
      obtain ⟨q₁, hstep, hrest⟩ := h
      intro e' he'
      rcases List.mem_cons.mp he' with rfl | hmem
      · intro hmax
        rw [recoverEntry, hmax, if_pos (Int64.le_maxValue _), if_pos rfl] at hstep
        cases hstep
      · exact ih hrest e' hmem

/-- **Recovery returns exactly from recoverable files**, whatever the policy. -/
theorem new_ne_none_iff (policy : RetentionPolicy) (wal : Option WalLog) :
    new policy wal ≠ none ↔ Recoverable wal := by
  cases wal with
  | none => exact ⟨fun _ w hw => (by cases hw), fun _ => Option.some_ne_none _⟩
  | some w =>
      have hiff : Recoverable (some w) ↔ w.readAll ≠ .error .capacityOverflow ∧
          ∀ entries, w.readAll = .ok entries → ∀ e ∈ entries, e.offset ≠ Int64.maxValue :=
        ⟨fun h => h w rfl, fun h w' hw' => by cases hw'; exact h⟩
      rw [hiff, new]
      cases hread : w.readAll with
      | error e => cases e <;> simp
      | ok entries =>
          dsimp only
          constructor
          · intro hnew
            obtain ⟨q, hq⟩ := Option.ne_none_iff_exists'.mp hnew
            refine ⟨by simp, ?_⟩
            rintro entries' ⟨⟩
            exact ne_maxValue_of_foldlM hq
          · rintro ⟨-, hroom⟩
            rw [foldlM_recoverEntry _ _ (hroom entries rfl)]
            exact Option.some_ne_none _

/-- `i64` increment below the maximum. -/
theorem toInt_add_one {x : Int64} (h : x ≠ Int64.maxValue) : (x + 1).toInt = x.toInt + 1 := by
  have hne : x.toInt ≠ 2 ^ 63 - 1 := by
    intro hmax
    exact h (Int64.toInt_inj.mp (hmax.trans Int64.toInt_maxValue.symm))
  have hlt : x.toInt < 2 ^ 63 := x.toInt_lt
  have hge : -2 ^ 63 ≤ x.toInt := x.le_toInt
  have hone : (1 : Int64).toInt = 1 := by decide
  rw [Int64.toInt_add, hone]
  exact Int.bmod_eq_of_le (by omega) (by omega)

/-- The recovered counter lies above every recovered offset. -/
theorem lt_offsetAfter {n : Int64} {es : List MessageEntry}
    (hroom : ∀ e ∈ es, e.offset ≠ Int64.maxValue) :
    n ≤ offsetAfter n es ∧ ∀ e ∈ es, e.offset < offsetAfter n es := by
  induction es generalizing n with
  | nil => exact ⟨Int64.le_refl n, by simp⟩
  | cons e es ih =>
      obtain ⟨hle, hlt⟩ := ih (n := if n ≤ e.offset then e.offset + 1 else n)
        fun e' he' => hroom e' (List.mem_cons_of_mem e he')
      -- one turn leaves the counter above the old counter and above `e`
      have hcounter : n ≤ (if n ≤ e.offset then e.offset + 1 else n) ∧
          e.offset < (if n ≤ e.offset then e.offset + 1 else n) := by
        have hsucc := toInt_add_one (hroom e List.mem_cons_self)
        simp only [Int64.le_iff_toInt_le, Int64.lt_iff_toInt_lt]
        split_ifs <;> omega
      refine ⟨Int64.le_trans hcounter.1 hle, ?_⟩
      intro e' he'
      rcases List.mem_cons.mp he' with rfl | hmem
      · exact Int64.lt_of_lt_of_le hcounter.2 hle
      · exact hlt e' hmem

/-- **Recovery from complete frames**, with fewer than eight bytes after them,
brings back their entries. -/
theorem new_frames (policy : RetentionPolicy) {es : List MessageEntry} {rest : List UInt8}
    (hfresh : ∀ e ∈ es, e.acknowledgedBy = ∅)
    (hroom : ∀ e ∈ es, e.offset ≠ Int64.maxValue) (hrest : rest.length < 8) :
    new policy (some ⟨WalLog.frames es ++ rest⟩) = some {
      messages := es
      nextOffset := offsetAfter 0 es
      retentionPolicy := policy
      currentSize := payloadBytes es
      wal := some ⟨WalLog.frames es ++ rest⟩ } := by
  simp only [new, WalLog.readAll_frames hfresh hrest]
  rw [foldlM_recoverEntry _ _ hroom]
  simp [empty]

end PartitionQueue

/-! ### The life of a partition -/

/-- One operation on a partition.  `restart` is a clean restart: the file
stays and `PartitionQueue::new` runs on it. -/
inductive PartitionOp
  | append (payload : Payload) (partitionId : Int32) (now nowEnforce : EpochTime)
  | acknowledge (offset : Int64) (consumerId : String)
  | cleanupAcknowledged
  | enforceRetentionPolicy (now : EpochTime)
  | restart (retentionPolicy : RetentionPolicy)

/-- A partition over its life. -/
structure PartitionRun where
  queue : PartitionQueue
  /-- What the appends returned, in order; `none` where one panicked. -/
  returned : List (Option Int64)
  /-- The entries that the appends which returned have made, in order. -/
  history : List MessageEntry
deriving DecidableEq

namespace PartitionRun

/-- A partition whose log file is empty. -/
def start (retentionPolicy : RetentionPolicy) : PartitionRun where
  queue := PartitionQueue.empty retentionPolicy (some ⟨[]⟩)
  returned := []
  history := []

/-- One operation.  An operation that panics leaves the queue as it was. -/
def step (s : PartitionRun) : PartitionOp → PartitionRun
  | .append payload partitionId now nowEnforce =>
      match s.queue.append payload partitionId now nowEnforce with
      | some (offset, queue) =>
          { queue := queue
            returned := s.returned ++ [some offset]
            history := s.history ++ [⟨offset, payload, now, partitionId, ∅⟩] }
      | none => { s with returned := s.returned ++ [none] }
  | .acknowledge offset consumerId =>
      { s with queue := s.queue.acknowledge offset consumerId }
  | .cleanupAcknowledged => { s with queue := s.queue.cleanupAcknowledged }
  | .enforceRetentionPolicy now =>
      { s with queue := (s.queue.enforceRetentionPolicy now).getD s.queue }
  | .restart retentionPolicy =>
      { s with queue := (PartitionQueue.new retentionPolicy s.queue.wal).getD s.queue }

/-- The run of the operations `ops`. -/
def run (s : PartitionRun) (ops : List PartitionOp) : PartitionRun := ops.foldl step s

/-- The log file holds exactly the history, and the queue a part of it. -/
structure Durable (s : PartitionRun) : Prop where
  wal_eq : s.queue.wal = some ⟨WalLog.frames s.history⟩
  fresh : ∀ e ∈ s.history, e.acknowledgedBy = ∅
  room : ∀ e ∈ s.history, e.offset ≠ Int64.maxValue
  sublist : (s.queue.messages.map MessageEntry.unacknowledged).Sublist s.history
  size_eq : s.queue.currentSize = payloadBytes s.queue.messages

variable {s : PartitionRun}

theorem frames_append_singleton (es : List MessageEntry) (e : MessageEntry) :
    WalLog.frames (es ++ [e]) = WalLog.frames es ++ WalLog.frame e := by
  simp [WalLog.frames]

/-- Acknowledging changes neither the entries nor the size. -/
theorem map_acknowledgeFirst {β : Type*} (f : MessageEntry → β) (offset : Int64)
    (consumerId : String) (es : List MessageEntry)
    (hf : ∀ e acks, f { e with acknowledgedBy := acks } = f e) :
    (PartitionQueue.acknowledgeFirst offset consumerId es).map f = es.map f := by
  induction es with
  | nil => rfl
  | cons e es ih =>
      simp only [PartitionQueue.acknowledgeFirst]
      split_ifs
      · simp only [List.map_cons, hf]
      · simp only [List.map_cons, ih]

/-- The queue after a restart of a durable partition. -/
theorem Durable.new_eq (h : s.Durable) (policy : RetentionPolicy) :
    PartitionQueue.new policy s.queue.wal = some {
      messages := s.history
      nextOffset := PartitionQueue.offsetAfter 0 s.history
      retentionPolicy := policy
      currentSize := payloadBytes s.history
      wal := some ⟨WalLog.frames s.history⟩ } := by
  rw [h.wal_eq, ← List.append_nil (WalLog.frames s.history)]
  exact PartitionQueue.new_frames policy h.fresh h.room (Nat.succ_pos 7)

/-- **Step lemma.**  Every operation keeps file and history together. -/
theorem Durable.step (h : s.Durable) (op : PartitionOp) : (s.step op).Durable := by
  cases op with
  | append payload partitionId now nowEnforce =>
      by_cases hmax : s.queue.nextOffset = Int64.maxValue
      · -- a panic changes nothing but the record of returns
        have hnone : s.queue.append payload partitionId now nowEnforce = none := if_pos hmax
        simp only [PartitionRun.step, hnone]
        exact ⟨h.wal_eq, h.fresh, h.room, h.sublist, h.size_eq⟩
      · obtain ⟨kept, hkept, hsome⟩ :=
          PartitionQueue.append_spec payload partitionId now nowEnforce h.size_eq hmax
        simp only [PartitionRun.step, hsome]
        constructor
        · simp only [PartitionQueue.push, h.wal_eq, Option.map_some, WalLog.append,
            frames_append_singleton]
        · intro e he
          rcases List.mem_append.mp he with hold | hnew
          · exact h.fresh e hold
          · rw [List.mem_singleton.mp hnew]
        · intro e he
          rcases List.mem_append.mp he with hold | hnew
          · exact h.room e hold
          · rw [List.mem_singleton.mp hnew]
            exact hmax
        · -- retention removes entries from the queue only
          apply (hkept.sublist.map _).trans
          rw [List.map_append]
          exact h.sublist.append (List.Sublist.refl _)
        · rfl
  | acknowledge offset consumerId =>
      refine ⟨h.wal_eq, h.fresh, h.room, ?_, ?_⟩
      · have hmap := map_acknowledgeFirst MessageEntry.unacknowledged offset consumerId
          s.queue.messages fun _ _ => rfl
        exact hmap ▸ h.sublist
      · have hmap := map_acknowledgeFirst (fun e => e.payload.len) offset consumerId
          s.queue.messages fun _ _ => rfl
        exact h.size_eq.trans (congrArg List.sum hmap).symm
  | cleanupAcknowledged =>
      exact ⟨h.wal_eq, h.fresh, h.room, (List.filter_sublist.map _).trans h.sublist, rfl⟩
  | enforceRetentionPolicy now =>
      obtain ⟨kept, hkept, hsome⟩ :=
        PartitionQueue.enforceRetentionPolicy_spec now h.size_eq
      simp only [PartitionRun.step, hsome, Option.getD_some]
      exact ⟨h.wal_eq, h.fresh, h.room, (hkept.sublist.map _).trans h.sublist, rfl⟩
  | restart policy =>
      simp only [PartitionRun.step, h.new_eq, Option.getD_some]
      refine ⟨rfl, h.fresh, h.room, ?_, rfl⟩
      rw [MessageEntry.map_unacknowledged h.fresh]

/-- **Run lemma.**  After any run, file and history agree. -/
theorem Durable.run (h : s.Durable) (ops : List PartitionOp) : (s.run ops).Durable := by
  induction ops generalizing s with
  | nil => exact h
  | cons op ops ih => exact ih (h.step op)

/-! ### Offsets count the appends -/

/-- The offsets of `es` are `k`, `k + 1`, and so on. -/
def Numbered : Nat → List MessageEntry → Prop
  | _, [] => True
  | k, e :: es => e.offset.toInt = k ∧ Numbered (k + 1) es

theorem Numbered.concat {k : Nat} {es : List MessageEntry} {e : MessageEntry}
    (h : Numbered k es) (he : e.offset.toInt = k + es.length) : Numbered k (es ++ [e]) := by
  induction es generalizing k with
  | nil => exact ⟨by simpa using he, trivial⟩
  | cons e' es ih =>
      refine ⟨h.1, ih h.2 ?_⟩
      rw [he, List.length_cons]
      omega

theorem Numbered.getElem? {k i : Nat} {es : List MessageEntry} {e : MessageEntry}
    (h : Numbered k es) (he : es[i]? = some e) : e.offset.toInt = k + i := by
  induction es generalizing k i with
  | nil => cases he
  | cons e' es ih =>
      cases i with
      | zero =>
          cases he
          exact h.1
      | succ i =>
          rw [ih h.2 (by simpa using he)]
          omega

theorem Numbered.bounds {k : Nat} {es : List MessageEntry} (h : Numbered k es) :
    ∀ e ∈ es, (k : Int) ≤ e.offset.toInt ∧ e.offset.toInt < k + es.length := by
  intro e he
  obtain ⟨i, hi, rfl⟩ := List.getElem_of_mem he
  rw [h.getElem? (List.getElem?_eq_getElem hi)]
  omega

theorem Numbered.pairwise {k : Nat} {es : List MessageEntry} (h : Numbered k es) :
    es.Pairwise fun a b => a.offset < b.offset := by
  induction es generalizing k with
  | nil => exact List.Pairwise.nil
  | cons e es ih =>
      refine List.Pairwise.cons (fun e' he' => ?_) (ih h.2)
      have hlow := (h.2.bounds e' he').1
      rw [Int64.lt_iff_toInt_lt, h.1]
      omega

/-- The counter recovered from numbered entries is the next number. -/
theorem Numbered.offsetAfter {k : Nat} {es : List MessageEntry} {n : Int64}
    (h : Numbered k es) (hn : n.toInt = k) (hroom : ∀ e ∈ es, e.offset ≠ Int64.maxValue) :
    (PartitionQueue.offsetAfter n es).toInt = k + es.length := by
  induction es generalizing k n with
  | nil => simpa [PartitionQueue.offsetAfter] using hn
  | cons e es ih =>
      have hle : n ≤ e.offset := by
        rw [Int64.le_iff_toInt_le, hn, h.1]
      have hsucc : (e.offset + 1).toInt = (k + 1 : Nat) := by
        rw [PartitionQueue.toInt_add_one (hroom e List.mem_cons_self), h.1]
        rfl
      have htail := ih h.2 hsucc fun e' he' => hroom e' (List.mem_cons_of_mem e he')
      rw [PartitionQueue.offsetAfter, List.foldl_cons, if_pos hle]
      rw [PartitionQueue.offsetAfter] at htail
      rw [htail, List.length_cons]
      omega

/-- The counter is the number of entries made so far, and the appends have
returned their offsets; they panic only once the counter has no room. -/
structure Counted (s : PartitionRun) : Prop where
  numbered : Numbered 0 s.history
  next_eq : s.queue.nextOffset.toInt = s.history.length
  returned_eq : ∃ m, s.returned =
    s.history.map (fun e => some e.offset) ++ List.replicate m none ∧
      (m ≠ 0 → s.queue.nextOffset = Int64.maxValue)

/-- An operation that touches neither the counter nor the records. -/
theorem Counted.of_eq {q : PartitionQueue} (h : s.Counted)
    (hq : q.nextOffset = s.queue.nextOffset) : Counted { s with queue := q } :=
  ⟨h.numbered, hq ▸ h.next_eq, hq ▸ h.returned_eq⟩

/-- **Step lemma** for the counter. -/
theorem Counted.step (h : s.Counted) (hd : s.Durable) (op : PartitionOp) :
    (s.step op).Counted := by
  cases op with
  | append payload partitionId now nowEnforce =>
      obtain ⟨m, hret, hm⟩ := h.returned_eq
      by_cases hmax : s.queue.nextOffset = Int64.maxValue
      · have hnone : s.queue.append payload partitionId now nowEnforce = none := if_pos hmax
        simp only [PartitionRun.step, hnone]
        refine ⟨h.numbered, h.next_eq, m + 1, ?_, fun _ => hmax⟩
        rw [hret, List.append_assoc, ← List.replicate_succ']
      · obtain ⟨kept, -, hsome⟩ :=
          PartitionQueue.append_spec payload partitionId now nowEnforce hd.size_eq hmax
        simp only [PartitionRun.step, hsome]
        -- the counter has room, so no append has panicked yet
        have hm0 : m = 0 := by
          by_contra hne
          exact hmax (hm hne)
        refine ⟨h.numbered.concat (by simpa using h.next_eq), ?_, 0, ?_, fun hne => absurd rfl hne⟩
        · simp only [PartitionQueue.push, PartitionQueue.toInt_add_one hmax, h.next_eq,
            List.length_append, List.length_singleton, Nat.cast_add, Nat.cast_one]
        · simp only [hret, hm0, List.replicate_zero, List.append_nil, List.map_append,
            List.map_cons, List.map_nil]
  | acknowledge offset consumerId => exact h.of_eq rfl
  | cleanupAcknowledged => exact h.of_eq rfl
  | enforceRetentionPolicy now =>
      obtain ⟨kept, -, hsome⟩ := PartitionQueue.enforceRetentionPolicy_spec now hd.size_eq
      simp only [PartitionRun.step, hsome, Option.getD_some]
      exact h.of_eq rfl
  | restart policy =>
      simp only [PartitionRun.step, hd.new_eq, Option.getD_some]
      -- the file holds the whole history, so the counter comes back as it was
      refine h.of_eq (Int64.toInt_inj.mp ?_)
      rw [h.next_eq, h.numbered.offsetAfter (by decide) hd.room]
      simp

/-- A partition starts with what `PartitionQueue::new` makes of an empty file. -/
theorem new_empty_file (policy : RetentionPolicy) :
    PartitionQueue.new policy (some ⟨[]⟩) = some (start policy).queue := by
  have hnew : PartitionQueue.new policy (some ⟨WalLog.frames [] ++ []⟩) = _ :=
    PartitionQueue.new_frames policy (by simp) (by simp) (by simp)
  exact hnew

theorem durable_start (policy : RetentionPolicy) : (start policy).Durable :=
  ⟨rfl, by simp [start], by simp [start], List.Sublist.refl [], rfl⟩

theorem counted_start (policy : RetentionPolicy) : (start policy).Counted :=
  ⟨trivial, show (0 : Int64).toInt = 0 by decide, 0, rfl, fun h => absurd rfl h⟩

/-- **Run lemma** for the counter. -/
theorem Counted.run (h : s.Counted) (hd : s.Durable) (ops : List PartitionOp) :
    (s.run ops).Counted := by
  induction ops generalizing s with
  | nil => exact h
  | cons op ops ih => exact ih (h.step hd op) (hd.step op)

/-- What the `i`-th append returns. -/
theorem Counted.returned_getElem? (h : s.Counted) {i : Nat} {r : Option Int64}
    (hr : s.returned[i]? = some r) :
    r = if i < 2 ^ 63 - 1 then some (Int64.ofNat i) else none := by
  obtain ⟨m, hret, hm⟩ := h.returned_eq
  have hnext := h.next_eq
  have hlt : s.queue.nextOffset.toInt < 2 ^ 63 := s.queue.nextOffset.toInt_lt
  rw [hret] at hr
  rcases Nat.lt_or_ge i s.history.length with hi | hi
  · -- one of the appends that returned
    rw [List.getElem?_append_left (by simpa using hi), List.getElem?_map,
      List.getElem?_eq_getElem hi] at hr
    have hoff := h.numbered.getElem? (List.getElem?_eq_getElem hi)
    have hi' : i < 2 ^ 63 - 1 := by omega
    cases hr
    rw [if_pos hi', Option.some.injEq, ← Int64.toInt_inj, hoff,
      Int64.toInt_ofNat_of_lt (by omega)]
    simp
  · -- one that found the counter at its maximum
    rw [List.getElem?_append_right (by simpa using hi), List.getElem?_replicate] at hr
    split at hr
    · rename_i hlt'
      have hmax := hm (by omega)
      rw [hmax, Int64.toInt_maxValue] at hnext
      cases hr
      rw [if_neg (by omega)]
    · cases hr

/-- The appends return `0`, `1`, `2`, ... -/
theorem Counted.returned_eq_range (h : s.Counted) :
    s.returned = (List.range s.returned.length).map fun i =>
      if i < 2 ^ 63 - 1 then some (Int64.ofNat i) else none := by
  apply List.ext_getElem (by simp)
  intro i hi _
  rw [List.getElem_map, List.getElem_range]
  exact h.returned_getElem? (List.getElem?_eq_getElem hi)

/-- The queue is sorted by offset, below the counter. -/
theorem Counted.sorted (h : s.Counted) (hd : s.Durable) :
    (s.queue.messages.Pairwise fun a b => a.offset < b.offset) ∧
      ∀ e ∈ s.queue.messages, e.offset < s.queue.nextOffset := by
  constructor
  · -- the queue is a sublist of the history, but for acknowledgements
    have hp := h.numbered.pairwise.sublist hd.sublist
    rw [List.pairwise_map] at hp
    exact hp
  · intro e he
    have hmem := hd.sublist.mem (List.mem_map_of_mem he)
    have hbound := (h.numbered.bounds _ hmem).2
    rw [Int64.lt_iff_toInt_lt, h.next_eq]
    simpa [MessageEntry.unacknowledged] using hbound

/-- **Offsets are never reused.**  After any run of operations and restarts
from an empty file, the `i`-th append has returned offset `i` (and panicked
once the `i64` counter was used up), the queue is strictly sorted below the
counter, and a restart brings back exactly the whole history. -/
theorem offsets_never_reused (policy : RetentionPolicy) (ops : List PartitionOp) :
    (((start policy).run ops).returned =
        (List.range ((start policy).run ops).returned.length).map fun i =>
          if i < 2 ^ 63 - 1 then some (Int64.ofNat i) else none) ∧
      (((start policy).run ops).queue.messages.Pairwise fun a b => a.offset < b.offset) ∧
      (∀ e ∈ ((start policy).run ops).queue.messages,
        e.offset < ((start policy).run ops).queue.nextOffset) ∧
      ∀ policy', (((start policy).run ops).step (.restart policy')).queue.messages =
        ((start policy).run ops).history := by
  have hd := (durable_start policy).run ops
  have hc := (counted_start policy).run (durable_start policy) ops
  refine ⟨hc.returned_eq_range, (hc.sorted hd).1, (hc.sorted hd).2, ?_⟩
  intro policy'
  simp only [PartitionRun.step, hd.new_eq, Option.getD_some]

end PartitionRun

/-! ### Bytes are counted exactly -/

/-- The size of the queue is the size of its messages. -/
def PartitionQueue.Exact (q : PartitionQueue) : Prop :=
  q.currentSize = payloadBytes q.messages

/-- A property of a queue that its operations keep, all but the append; the
retention check does not panic where it holds. -/
structure PartitionQueue.Steady (J : PartitionQueue → Prop) : Prop where
  enforceRetentionPolicy : ∀ q now, J q →
    ∃ q', q.enforceRetentionPolicy now = some q' ∧ J q'
  acknowledge : ∀ q offset consumerId, J q → J (q.acknowledge offset consumerId)
  cleanupAcknowledged : ∀ q, J q → J q.cleanupAcknowledged

theorem PartitionQueue.steady_exact : Steady Exact where
  enforceRetentionPolicy := by
    intro q now hq
    obtain ⟨kept, -, hsome⟩ := enforceRetentionPolicy_spec now hq
    exact ⟨{ q with messages := kept, currentSize := payloadBytes kept }, hsome, rfl⟩
  acknowledge := by
    intro q offset consumerId hq
    have hmap := PartitionRun.map_acknowledgeFirst (fun e => e.payload.len) offset consumerId
      q.messages fun _ _ => rfl
    exact hq.trans (congrArg List.sum hmap).symm
  cleanupAcknowledged := fun _ _ => rfl

/-- The size after an append has pushed its entry. -/
theorem PartitionQueue.Exact.push {q : PartitionQueue} (hq : q.Exact) (entry : MessageEntry) :
    (q.push entry).Exact := by
  have hsize : q.currentSize = payloadBytes q.messages := hq
  simp [Exact, PartitionQueue.push, hsize, payloadBytes]

theorem PartitionQueue.Exact.of_append {q q' : PartitionQueue} {payload : Payload}
    {partitionId : Int32} {now nowEnforce : EpochTime} {offset : Int64} (hq : q.Exact)
    (h : q.append payload partitionId now nowEnforce = some (offset, q')) : q'.Exact := by
  obtain ⟨kept, -, hsome⟩ :=
    append_spec payload partitionId now nowEnforce hq (room_of_append h)
  rw [hsome] at h
  cases h
  rfl

end Rafka
