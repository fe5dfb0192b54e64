/-
Rafka/QueueTasks.lean

Concurrent calls on the queue of one partition (`PartitionQueue` in
`crates/storage/src/db.rs`), lock by lock, and restarts between any two of their steps.

All calls go through the lock on `messages`.  `append` keeps its write guard, and that on
`next_offset`, to its end.  There it calls `enforce_retention_policy`, which asks for the
write guard on `messages` once more.  That a reader also waits behind a writer who waits
only takes interleavings away.  A write to the log is one step here; `Rafka.Crash` is about
those that are cut short.

Main results: but for what an append under way has done, the queue is always that of a
run of operations one after the other, in which there are fewer appends than the
partition has had starts, and no append ever returns an offset (`one_append_per_start`).
Once an append has its number, no call returns until the next start
(`nothing_returns_after_append`).
-/
import Rafka.Inventory
import Rafka.RwLock

namespace Rafka

/-! ### Calls and where they are -/

/-- A call on the queue of a partition. -/
inductive QueueCall
  | append (payload : Payload) (partitionId : Int32)
  | readFrom (startOffset : Int64) (maxMessages : Nat)
  | acknowledge (offset : Int64) (consumerId : String)
  | cleanupAcknowledged
  | enforceRetentionPolicy
  /-- The turn of `Storage::get_metrics` for the queue. -/
  | addMetrics (m : StorageMetrics)
deriving DecidableEq

/-- What a call returns. -/
inductive QueueReply
  | appended (offset : Int64)
  | entries (es : List MessageEntry)
  | metrics (m : StorageMetrics)
  | done
deriving DecidableEq

/-- Where a call is. -/
inductive QueuePhase
  | called
  /-- It has its guard on `messages`. -/
  | locked
  /-- `append` has its guard on `next_offset` too, and the number of the entry. -/
  | numbered (entry : MessageEntry)
  | logged (entry : MessageEntry)
  | counted (entry : MessageEntry)
  | pushed (entry : MessageEntry)
  | returned (reply : QueueReply)
  | panicked
deriving DecidableEq

/-- The guard on `messages` that a call takes first. -/
def QueueCall.mode : QueueCall → Mode
  | .readFrom _ _ | .acknowledge _ _ | .addMetrics _ => .read
  | .append _ _ | .cleanupAcknowledged | .enforceRetentionPolicy => .write

/-- What a call does to the queue at once; an append does it in several steps. -/
def QueueCall.op? (now : EpochTime) : QueueCall → Option PartitionOp
  | .acknowledge offset consumerId => some (.acknowledge offset consumerId)
  | .cleanupAcknowledged => some .cleanupAcknowledged
  | .enforceRetentionPolicy => some (.enforceRetentionPolicy now)
  | .append _ _ | .readFrom _ _ | .addMetrics _ => none

/-- What a call other than `append` returns on the queue. -/
def QueueCall.answer? (q : PartitionQueue) : QueueCall → Option QueueReply
  | .append _ _ => none
  | .readFrom startOffset maxMessages => some (.entries (q.readFrom startOffset maxMessages))
  | .addMetrics m => some (.metrics (Storage.addQueue m q))
  | .acknowledge _ _ | .cleanupAcknowledged | .enforceRetentionPolicy => some .done

/-- The entry of an append that has its number and has not returned. -/
def QueuePhase.entry? : QueuePhase → Option MessageEntry
  | .numbered entry | .logged entry | .counted entry | .pushed entry => some entry
  | .called | .locked | .returned _ | .panicked => none

/-- A call on the queue.  `since` records how much had been done when it was made. -/
structure QueueTask where
  call : QueueCall
  since : Nat
  phase : QueuePhase
deriving DecidableEq

namespace QueueTask

/-- The guard on `messages` that the call has. -/
def messagesGuard (task : QueueTask) : Option Mode :=
  match task.phase with
  | .locked => some task.call.mode
  | .numbered _ | .logged _ | .counted _ | .pushed _ => some .write
  | .called | .returned _ | .panicked => none

/-- The guard on `next_offset` that the call has. -/
def nextOffsetGuard (task : QueueTask) : Option Mode :=
  match task.phase with
  | .numbered _ | .logged _ | .counted _ | .pushed _ => some .write
  | .called | .locked | .returned _ | .panicked => none

/-- The append whose entry is in the log, if the call is one that has not returned. -/
def loggedOp? (task : QueueTask) : Option PartitionOp :=
  match task.phase with
  | .logged e | .counted e | .pushed e =>
      some (.append e.payload e.partitionId e.timestamp e.timestamp)
  | .called | .locked | .numbered _ | .returned _ | .panicked => none

end QueueTask

/-! ### The queue and the calls on it -/

/-- The queue of a partition and the calls since its last start.  `opened` counts the
starts, `recovered` records what the last one has found in the log, and `history` what
has been done, as one operation after the other. -/
structure QueueTasks where
  queue : PartitionQueue
  tasks : List QueueTask
  opened : Nat
  recovered : List MessageEntry
  history : List PartitionOp

/-- What happens next. -/
inductive QueueLabel
  | call (call : QueueCall)
  /-- The next step of call `i`; `now` is the clock, if the step reads it. -/
  | task (i : Nat) (now : EpochTime)
  /-- The process ends, and `PartitionQueue::new` runs on the file. -/
  | restart (retentionPolicy : RetentionPolicy)

namespace QueueTasks

/-- A partition whose log file is empty. -/
def start (policy : RetentionPolicy) : QueueTasks where
  queue := PartitionQueue.empty policy (some ⟨[]⟩)
  tasks := []
  opened := 1
  recovered := []
  history := []

/-- Call `i` goes on, with this effect. -/
def goTo (s : QueueTasks) (i : Nat) (task : QueueTask) (phase : QueuePhase)
    (queue : PartitionQueue) (ops : List PartitionOp) : QueueTasks :=
  { s with
    queue := queue
    tasks := s.tasks.set i { task with phase := phase }
    history := s.history ++ ops }

/-- The next step of a call that has its guard on `messages`. -/
def stepLocked (s : QueueTasks) (i : Nat) (now : EpochTime) (task : QueueTask) : QueueTasks :=
  match task.call with
  | .append payload partitionId =>
      if RwLock.admits QueueTask.nextOffsetGuard s.tasks .write then
        if s.queue.nextOffset = Int64.maxValue then s.goTo i task .panicked s.queue []
        else
          s.goTo i task (.numbered ⟨s.queue.nextOffset, payload, now, partitionId, ∅⟩)
            { s.queue with nextOffset := s.queue.nextOffset + 1 } []
      else s
  | .readFrom startOffset maxMessages =>
      s.goTo i task (.returned (.entries (s.queue.readFrom startOffset maxMessages))) s.queue []
  | .acknowledge offset consumerId =>
      s.goTo i task (.returned .done) (s.queue.acknowledge offset consumerId)
        [.acknowledge offset consumerId]
  | .cleanupAcknowledged =>
      s.goTo i task (.returned .done) s.queue.cleanupAcknowledged [.cleanupAcknowledged]
  | .enforceRetentionPolicy =>
      match s.queue.enforceRetentionPolicy now with
      | some queue => s.goTo i task (.returned .done) queue [.enforceRetentionPolicy now]
      | none => s.goTo i task .panicked s.queue []
  | .addMetrics m => s.goTo i task (.returned (.metrics (Storage.addQueue m s.queue))) s.queue []

/-- The next step of a call. -/
def stepTask (s : QueueTasks) (i : Nat) (now : EpochTime) (task : QueueTask) : QueueTasks :=
  match task.phase with
  | .called =>
      if RwLock.admits QueueTask.messagesGuard s.tasks task.call.mode then
        s.goTo i task .locked s.queue []
      else s
  | .locked => s.stepLocked i now task
  | .numbered entry =>
      s.goTo i task (.logged entry)
        { s.queue with wal := s.queue.wal.map fun w => w.append entry } []
  | .logged entry =>
      s.goTo i task (.counted entry)
        { s.queue with currentSize := s.queue.currentSize + entry.payload.len } []
  | .counted entry =>
      s.goTo i task (.pushed entry)
        { s.queue with messages := s.queue.messages ++ [entry] } []
  | .pushed entry =>
      -- `enforce_retention_policy` takes the guard on `messages` itself
      if RwLock.admits QueueTask.messagesGuard s.tasks .write then
        match s.queue.enforceRetentionPolicy now with
        | some queue =>
            s.goTo i task (.returned (.appended entry.offset)) queue
              [.append entry.payload entry.partitionId entry.timestamp now]
        | none => s.goTo i task .panicked s.queue []
      else s
  | .returned _ | .panicked => s

/-- The append under way whose entry is in the log, if there is one. -/
def loggedOps (s : QueueTasks) : List PartitionOp :=
  (s.tasks.findSome? QueueTask.loggedOp?).toList

/-- One step. -/
def step (s : QueueTasks) : QueueLabel → QueueTasks
  | .call call => { s with tasks := s.tasks ++ [⟨call, s.history.length, .called⟩] }
  | .task i now =>
      match s.tasks[i]? with
      | some task => s.stepTask i now task
      | none => s
  | .restart policy =>
      let queue := (PartitionQueue.new policy s.queue.wal).getD s.queue
      { queue := queue
        tasks := []
        opened := s.opened + 1
        recovered := queue.messages
        history := s.history ++ s.loggedOps ++ [.restart policy] }

/-! ### One operation after the other -/

/-- The partition after the operations, one after the other. -/
def after (policy : RetentionPolicy) (ops : List PartitionOp) : PartitionRun :=
  (PartitionRun.start policy).run ops

end QueueTasks

/-- The operation is an append. -/
def PartitionOp.isAppend : PartitionOp → Bool
  | .append _ _ _ _ => true
  | _ => false

/-- What an append under way has done to the queue that it found. -/
def QueuePhase.changes (q : PartitionQueue) : QueuePhase → PartitionQueue
  | .numbered entry => { q with nextOffset := entry.offset + 1 }
  | .logged entry =>
      { q with nextOffset := entry.offset + 1, wal := q.wal.map fun w => w.append entry }
  | .counted entry =>
      { q with
        nextOffset := entry.offset + 1
        wal := q.wal.map fun w => w.append entry
        currentSize := q.currentSize + entry.payload.len }
  | .pushed entry => q.push entry
  | .called | .locked | .returned _ | .panicked => q

namespace QueueTasks

/-- The append has taken the next number of the partition for its entry. -/
structure Takes (r : PartitionRun) (call : QueueCall) (entry : MessageEntry) : Prop where
  call_eq : call = .append entry.payload entry.partitionId
  offset_eq : entry.offset = r.queue.nextOffset
  fresh : entry.acknowledgedBy = ∅
  room : r.queue.nextOffset ≠ Int64.maxValue

/-- The call has returned what it returns at some moment between then and now, and what
it does was done at that moment. -/
def Explained (policy : RetentionPolicy) (history : List PartitionOp) (task : QueueTask)
    (reply : QueueReply) : Prop :=
  ∃ k, task.since ≤ k ∧ k ≤ history.length ∧
    task.call.answer? (after policy (history.take k)).queue = some reply ∧
    ∃ now, ∀ op, task.call.op? now = some op → history[k]? = some op

/-- But for what an append under way has done, the queue is that of a run of operations
one after the other, and the answers are those of this run. -/
structure Serialized (policy : RetentionPolicy) (s : QueueTasks) : Prop where
  quiet : (∀ task ∈ s.tasks, task.phase.entry? = none) → s.queue = (after policy s.history).queue
  underWay : ∀ task ∈ s.tasks, ∀ entry, task.phase.entry? = some entry →
    Takes (after policy s.history) task.call entry ∧
      s.queue = task.phase.changes (after policy s.history).queue
  replies : ∀ task ∈ s.tasks, ∀ reply, task.phase = .returned reply →
    Explained policy s.history task reply

/-- Fewer appends have been done than there have been starts, and none has told its number;
the log has at most one message for each start, and readers see only messages of earlier
starts: those that the last one has found there. -/
structure OnePerStart (s : QueueTasks) : Prop where
  appends : s.history.countP PartitionOp.isAppend < s.opened
  noOffset : ∀ task ∈ s.tasks, ∀ offset, task.phase ≠ .returned (.appended offset)
  log : ∃ es, s.queue.wal = some ⟨WalLog.frames es⟩ ∧ PartitionRun.Numbered 0 es ∧
    es.length ≤ s.opened ∧
    (∀ policy, ∃ q, PartitionQueue.new policy s.queue.wal = some q ∧ q.messages = es) ∧
    s.recovered <+: es ∧ s.recovered.length < s.opened
  readers : ∀ task ∈ s.tasks, ∀ read, task.phase = .returned (.entries read) → ∀ e ∈ read,
    e.unacknowledged ∈ s.recovered

/-- The invariant: the guards are lawful, and the operations explain the queue and the
answers, with fewer appends than starts. -/
structure Inv (policy : RetentionPolicy) (s : QueueTasks) : Prop where
  exclusive : RwLock.Exclusive QueueTask.messagesGuard s.tasks
  serialized : Serialized policy s
  since : ∀ task ∈ s.tasks, task.since ≤ s.history.length
  appends : s.history.countP PartitionOp.isAppend < s.opened
  recovered : s.recovered = (after policy s.history).history

variable {policy : RetentionPolicy} {s : QueueTasks} {i : Nat} {now : EpochTime}
  {task : QueueTask} {phase : QueuePhase} {queue : PartitionQueue} {ops : List PartitionOp}

/-! ### Operations one after the other -/

theorem durable_after (policy : RetentionPolicy) (ops : List PartitionOp) :
    (after policy ops).Durable :=
  (PartitionRun.durable_start policy).run ops

theorem counted_after (policy : RetentionPolicy) (ops : List PartitionOp) :
    (after policy ops).Counted :=
  (PartitionRun.counted_start policy).run (PartitionRun.durable_start policy) ops

theorem after_append (policy : RetentionPolicy) (ops more : List PartitionOp) :
    after policy (ops ++ more) = (after policy ops).run more :=
  List.foldl_append

/-- An append which has room makes its entry, and the others make none. -/
theorem history_step (r : PartitionRun) (op : PartitionOp) :
    ∃ es, (r.step op).history = r.history ++ es ∧ es.length ≤ [op].countP PartitionOp.isAppend := by
  cases op with
  | append payload partitionId now nowEnforce =>
      simp only [PartitionRun.step]
      split
      · exact ⟨_, rfl, Nat.le_refl 1⟩
      · exact ⟨[], (List.append_nil _).symm, Nat.zero_le 1⟩
  | _ => exact ⟨[], (List.append_nil _).symm, Nat.le_refl 0⟩

/-- The log grows by at most one entry for each append. -/
theorem history_run (r : PartitionRun) (ops : List PartitionOp) :
    ∃ es, (r.run ops).history = r.history ++ es ∧ es.length ≤ ops.countP PartitionOp.isAppend := by
  induction ops generalizing r with
  | nil => exact ⟨[], (List.append_nil _).symm, Nat.le_refl 0⟩
  | cons op ops ih =>
      obtain ⟨first, hfirst, hone⟩ := history_step r op
      obtain ⟨rest, hrest, hle⟩ := ih (r.step op)
      refine ⟨first ++ rest, ?_, ?_⟩
      · rw [PartitionRun.run, List.foldl_cons, ← PartitionRun.run, hrest, hfirst,
          List.append_assoc]
      · rw [List.length_append, ← List.singleton_append, List.countP_append]
        exact Nat.add_le_add hone hle

/-- Without an append the log stays as it is. -/
theorem history_run_of_noAppend (r : PartitionRun) {ops : List PartitionOp}
    (h : ops.countP PartitionOp.isAppend = 0) : (r.run ops).history = r.history := by
  obtain ⟨es, hes, hle⟩ := history_run r ops
  rw [h, Nat.le_zero, List.length_eq_zero_iff] at hle
  rw [hes, hle, List.append_nil]

/-- An append that takes its number leaves its entry in the log. -/
theorem Takes.wal_eq {r : PartitionRun} {call : QueueCall} {e : MessageEntry}
    (h : Takes r call e) (hr : r.Durable) (nowEnforce : EpochTime) :
    (r.step (.append e.payload e.partitionId e.timestamp nowEnforce)).queue.wal =
      r.queue.wal.map fun w => w.append e := by
  obtain ⟨kept, -, hsome⟩ := PartitionQueue.append_spec e.payload e.partitionId e.timestamp
    nowEnforce hr.size_eq h.room
  have hentry : e = ⟨r.queue.nextOffset, e.payload, e.timestamp, e.partitionId, ∅⟩ := by
    rw [← h.offset_eq, ← h.fresh]
  simp only [PartitionRun.step, hsome, PartitionQueue.push]
  rw [← hentry]

/-- A start on the file of a durable partition. -/
theorem new_getD {r : PartitionRun} (hr : r.Durable) (policy : RetentionPolicy)
    (q : PartitionQueue) :
    (PartitionQueue.new policy r.queue.wal).getD q = (r.step (.restart policy)).queue := by
  simp only [PartitionRun.step, hr.new_eq, Option.getD_some]

/-! ### What one step of a call can do -/

theorem guard_of_entry {entry : MessageEntry} (h : task.phase.entry? = some entry) :
    task.messagesGuard = some .write := by
  unfold QueueTask.messagesGuard
  cases hphase : task.phase with
  | numbered entry | logged entry | counted entry | pushed entry => rfl
  | called | locked | returned reply | panicked =>
      rw [hphase] at h
      cases h

theorem guard_of_locked (h : task.phase = .locked) :
    task.messagesGuard = some task.call.mode := by
  unfold QueueTask.messagesGuard
  rw [h]

/-- What the next step of a call can do. -/
inductive Moves (s : QueueTasks) (now : EpochTime) (task : QueueTask) :
    QueuePhase → PartitionQueue → List PartitionOp → Prop
  | lock (hphase : task.phase = .called)
      (hfree : RwLock.admits QueueTask.messagesGuard s.tasks task.call.mode = true) :
      Moves s now task .locked s.queue []
  | number {payload : Payload} {partitionId : Int32} (hphase : task.phase = .locked)
      (hcall : task.call = .append payload partitionId)
      (hroom : s.queue.nextOffset ≠ Int64.maxValue) :
      Moves s now task (.numbered ⟨s.queue.nextOffset, payload, now, partitionId, ∅⟩)
        { s.queue with nextOffset := s.queue.nextOffset + 1 } []
  | go {phase : QueuePhase} {queue : PartitionQueue} {entry : MessageEntry}
      (hentry : task.phase.entry? = some entry) (hnext : phase.entry? = some entry)
      (hqueue : ∀ q, s.queue = task.phase.changes q → queue = phase.changes q) :
      Moves s now task phase queue []
  | serve {reply : QueueReply} {queue : PartitionQueue} {ops : List PartitionOp}
      (hphase : task.phase = .locked) (hreply : task.call.answer? s.queue = some reply)
      (hops : (task.call.op? now).toList = ops)
      (hqueue : ∀ r : PartitionRun, r.queue = s.queue → (r.run ops).queue = queue) :
      Moves s now task (.returned reply) queue ops
  | panic (hphase : task.phase = .locked) : Moves s now task .panicked s.queue []
  /-- `enforce_retention_policy` gets the guard that `append` has. -/
  | relock {phase : QueuePhase} {queue : PartitionQueue} {ops : List PartitionOp}
      {entry : MessageEntry} (hphase : task.phase = .pushed entry)
      (hfree : RwLock.admits QueueTask.messagesGuard s.tasks .write = true) :
      Moves s now task phase queue ops

/-- A call that has its guard goes on as `Moves` says, or waits. -/
theorem stepLocked_cases (hphase : task.phase = .locked) :
    s.stepLocked i now task = s ∨ ∃ phase queue ops, Moves s now task phase queue ops ∧
      s.stepLocked i now task = s.goTo i task phase queue ops := by
  unfold stepLocked
  cases hcall : task.call with
  | append payload partitionId =>
      dsimp only
      split_ifs with hfree hmax
      · exact .inr ⟨_, _, _, .panic hphase, rfl⟩
      · exact .inr ⟨_, _, _, .number hphase hcall hmax, rfl⟩
      · exact .inl rfl
  | readFrom startOffset maxMessages =>
      refine .inr ⟨_, _, _, .serve hphase (by rw [hcall]; rfl) (by rw [hcall]; rfl) ?_, rfl⟩
      exact fun _ hr => hr
  | acknowledge offset consumerId =>
      refine .inr ⟨_, _, _, .serve hphase (by rw [hcall]; rfl) (by rw [hcall]; rfl) ?_, rfl⟩
      intro r hr
      rw [← hr]
      rfl
  | cleanupAcknowledged =>
      refine .inr ⟨_, _, _, .serve hphase (by rw [hcall]; rfl) (by rw [hcall]; rfl) ?_, rfl⟩
      intro r hr
      rw [← hr]
      rfl
  | enforceRetentionPolicy =>
      dsimp only
      cases hqueue : s.queue.enforceRetentionPolicy now with
      | some queue =>
          refine .inr ⟨_, _, _, .serve hphase (by rw [hcall]; rfl) (by rw [hcall]; rfl) ?_, rfl⟩
          intro r hr
          show (r.queue.enforceRetentionPolicy now).getD r.queue = queue
          rw [hr, hqueue, Option.getD_some]
      | none => exact .inr ⟨_, _, _, .panic hphase, rfl⟩
  | addMetrics m =>
      refine .inr ⟨_, _, _, .serve hphase (by rw [hcall]; rfl) (by rw [hcall]; rfl) ?_, rfl⟩
      exact fun _ hr => hr

/-- **Inversion lemma.**  A call goes on as `Moves` says, or it waits. -/
theorem stepTask_cases (s : QueueTasks) (i : Nat) (now : EpochTime) (task : QueueTask) :
    s.stepTask i now task = s ∨ ∃ phase queue ops, Moves s now task phase queue ops ∧
      s.stepTask i now task = s.goTo i task phase queue ops := by
  unfold stepTask
  cases hphase : task.phase with
  | called =>
      dsimp only
      split_ifs with hfree
      · exact .inr ⟨_, _, _, .lock hphase hfree, rfl⟩
      · exact .inl rfl
  | locked => exact stepLocked_cases hphase
  | numbered entry =>
      refine .inr ⟨_, _, _, .go (by rw [hphase]; rfl) rfl ?_, rfl⟩
      intro q hq
      rw [hq, hphase]
      rfl
  | logged entry =>
      refine .inr ⟨_, _, _, .go (by rw [hphase]; rfl) rfl ?_, rfl⟩
      intro q hq
      rw [hq, hphase]
      rfl
  | counted entry =>
      refine .inr ⟨_, _, _, .go (by rw [hphase]; rfl) rfl ?_, rfl⟩
      intro q hq
      rw [hq, hphase]
      rfl
  | pushed entry =>
      dsimp only
      split_ifs with hfree
      · have hmoves : ∀ phase queue ops, Moves s now task phase queue ops :=
          fun _ _ _ => .relock hphase hfree
        cases s.queue.enforceRetentionPolicy now with
        | some queue => exact .inr ⟨_, _, _, hmoves _ _ _, rfl⟩
        | none => exact .inr ⟨_, _, _, hmoves _ _ _, rfl⟩
      · exact .inl rfl
  | returned reply => exact .inl rfl
  | panicked => exact .inl rfl

/-! ### The operations explain the queue and the answers -/

theorem inv_start (policy : RetentionPolicy) : Inv policy (start policy) where
  exclusive := RwLock.exclusive_nil
  serialized :=
    { quiet := fun _ => rfl
      underWay := by rintro task ⟨⟩
      replies := by rintro task ⟨⟩ }
  since := by rintro task ⟨⟩
  appends := Nat.zero_lt_one
  recovered := rfl

/-- More operations explain it too. -/
theorem Explained.mono {history : List PartitionOp} {reply : QueueReply}
    (h : Explained policy history task reply) (ops : List PartitionOp) :
    Explained policy (history ++ ops) task reply := by
  obtain ⟨k, hsince, hk, hanswer, now, hop⟩ := h
  refine ⟨k, hsince, ?_, ?_, now, fun op h => ?_⟩
  · rw [List.length_append]
    exact Nat.le_add_right_of_le hk
  · rwa [List.take_append_of_le_length hk]
  · have hlt := (List.getElem?_eq_some_iff.mp (hop op h)).1
    rw [List.getElem?_append_left hlt]
    exact hop op h

/-- Beside a call with its guard no append is under way. -/
theorem quiet_of_guard (h : RwLock.Exclusive QueueTask.messagesGuard s.tasks)
    (hi : s.tasks[i]? = some task) (hguard : task.messagesGuard ≠ none) {j : Nat}
    {other : QueueTask} (hj : s.tasks[j]? = some other) (hne : j ≠ i) :
    other.phase.entry? = none := by
  by_contra hentry
  obtain ⟨entry, hentry⟩ := Option.ne_none_iff_exists'.mp hentry
  exact h.no_writer hi hguard hj hne (guard_of_entry hentry)

/-- The guard that `append` has keeps `enforce_retention_policy` out. -/
theorem not_relock {entry : MessageEntry} (hi : s.tasks[i]? = some task)
    (hphase : task.phase = .pushed entry) :
    RwLock.admits QueueTask.messagesGuard s.tasks .write ≠ true := by
  intro hfree
  have hnone := (RwLock.guard_of_admits hfree hi).2 rfl
  rw [guard_of_entry (by rw [hphase]; rfl)] at hnone
  cases hnone

/-- A call goes on lawfully. -/
theorem Moves.lawful (h : Moves s now task phase queue ops) (hi : s.tasks[i]? = some task) :
    RwLock.Lawful QueueTask.messagesGuard s.tasks task { task with phase := phase } := by
  cases h with
  | lock hphase hfree => exact .inr (.inr ⟨_, rfl, hfree⟩)
  | number hphase hcall hroom =>
      refine .inr (.inl ?_)
      rw [guard_of_locked hphase, hcall]
      rfl
  | go hentry hnext hqueue =>
      exact .inr (.inl ((guard_of_entry hnext).trans (guard_of_entry hentry).symm))
  | serve hphase hreply hops hqueue => exact .inl rfl
  | panic hphase => exact .inl rfl
  | relock hphase hfree => exact absurd hfree (not_relock hi hphase)

/-- When a call goes on, no append is under way beside it. -/
theorem Moves.alone (h : Moves s now task phase queue ops)
    (hexcl : RwLock.Exclusive QueueTask.messagesGuard s.tasks) (hi : s.tasks[i]? = some task)
    {j : Nat} {other : QueueTask} (hj : s.tasks[j]? = some other) (hne : j ≠ i) :
    other.phase.entry? = none := by
  have hlocked : task.phase = .locked → other.phase.entry? = none := by
    intro hphase
    refine quiet_of_guard hexcl hi ?_ hj hne
    rw [guard_of_locked hphase]
    exact Option.some_ne_none _
  cases h with
  | lock hphase hfree =>
      by_contra hentry
      obtain ⟨entry, hentry⟩ := Option.ne_none_iff_exists'.mp hentry
      exact (RwLock.guard_of_admits hfree hj).1 (guard_of_entry hentry)
  | number hphase hcall hroom => exact hlocked hphase
  | go hentry hnext hqueue =>
      refine quiet_of_guard hexcl hi ?_ hj hne
      rw [guard_of_entry hentry]
      exact Option.some_ne_none _
  | serve hphase hreply hops hqueue => exact hlocked hphase
  | panic hphase => exact hlocked hphase
  | relock hphase hfree => exact absurd hfree (not_relock hi hphase)

theorem countP_op? (call : QueueCall) (now : EpochTime) :
    (call.op? now).toList.countP PartitionOp.isAppend = 0 := by
  cases call <;> rfl

/-- What a call leaves behind when it goes on. -/
structure Leaves (policy : RetentionPolicy) (history : List PartitionOp) (task : QueueTask)
    (phase : QueuePhase) (queue : PartitionQueue) : Prop where
  quiet : phase.entry? = none → queue = (after policy history).queue
  underWay : ∀ entry, phase.entry? = some entry →
    Takes (after policy history) task.call entry ∧
      queue = phase.changes (after policy history).queue
  reply : ∀ reply, phase = .returned reply → Explained policy history task reply

/-- A call goes on. -/
theorem Moves.leaves (hmove : Moves s now task phase queue ops) (h : Inv policy s)
    (hi : s.tasks[i]? = some task) :
    Leaves policy (s.history ++ ops) task phase queue ∧
      ops.countP PartitionOp.isAppend = 0 := by
  have hmem := List.mem_of_getElem? hi
  -- if this call is not an append under way, no call is one
  have hquiet : task.phase.entry? = none → s.queue = (after policy s.history).queue := by
    intro hnone
    refine h.serialized.quiet fun other hother => ?_
    obtain ⟨j, hj⟩ := List.mem_iff_getElem?.mp hother
    by_cases hne : j = i
    · subst hne
      rw [hi] at hj
      cases hj
      exact hnone
    · exact hmove.alone h.exclusive hi hj hne
  cases hmove with
  | lock hphase hfree =>
      rw [List.append_nil]
      refine ⟨⟨fun _ => hquiet (by rw [hphase]; rfl), ?_, ?_⟩, rfl⟩
      · rintro entry ⟨⟩
      · rintro reply ⟨⟩
  | @number payload partitionId hphase hcall hroom =>
      have hq := hquiet (by rw [hphase]; rfl)
      rw [List.append_nil]
      refine ⟨⟨?_, ?_, ?_⟩, rfl⟩
      · rintro ⟨⟩
      · rintro entry ⟨⟩
        refine ⟨⟨hcall, by rw [hq], rfl, by rwa [← hq]⟩, ?_⟩
        rw [hq]
        rfl
      · rintro reply ⟨⟩
  | @go phase queue entry hentry hnext hqueue =>
      obtain ⟨htakes, hq⟩ := h.serialized.underWay task hmem entry hentry
      rw [List.append_nil]
      refine ⟨⟨?_, ?_, ?_⟩, rfl⟩
      · intro hnone
        rw [hnext] at hnone
        cases hnone
      · intro entry' hentry'
        rw [hnext] at hentry'
        cases hentry'
        exact ⟨htakes, hqueue _ hq⟩
      · rintro reply rfl
        cases hnext
  | @serve reply queue ops hphase hreply hops hqueue =>
      have hq := hquiet (by rw [hphase]; rfl)
      refine ⟨⟨?_, ?_, ?_⟩, hops ▸ countP_op? task.call now⟩
      · intro _
        rw [after_append]
        exact (hqueue _ hq.symm).symm
      · rintro entry ⟨⟩
      · rintro reply' ⟨⟩
        refine ⟨s.history.length, h.since task hmem, ?_, ?_, now, fun op hop => ?_⟩
        · rw [List.length_append]
          exact Nat.le_add_right _ _
        · rw [List.take_left, ← hq]
          exact hreply
        · rw [← hops, hop, Option.toList_some]
          exact List.getElem?_concat_length
  | panic hphase =>
      rw [List.append_nil]
      refine ⟨⟨fun _ => hquiet (by rw [hphase]; rfl), ?_, ?_⟩, rfl⟩
      · rintro entry ⟨⟩
      · rintro reply ⟨⟩
  | relock hphase hfree => exact absurd hfree (not_relock hi hphase)

/-- **Step lemma.**  A call goes on. -/
theorem Inv.move (h : Inv policy s) (hi : s.tasks[i]? = some task)
    (hmove : Moves s now task phase queue ops) :
    Inv policy (s.goTo i task phase queue ops) := by
  obtain ⟨hleaves, hcount⟩ := hmove.leaves h hi
  have hmem := List.mem_of_getElem? hi
  have hself : ({ task with phase := phase } : QueueTask) ∈
      s.tasks.set i { task with phase := phase } :=
    List.mem_set (List.getElem?_eq_some_iff.mp hi).1 _
  have hcases : ∀ other ∈ s.tasks.set i { task with phase := phase },
      other = { task with phase := phase } ∨ other ∈ s.tasks ∧ other.phase.entry? = none := by
    intro other hother
    obtain ⟨j, hj⟩ := List.mem_iff_getElem?.mp hother
    rcases getElem?_set_cases hj with ⟨-, rfl⟩ | ⟨hne, hj⟩
    · exact .inl rfl
    · exact .inr ⟨List.mem_of_getElem? hj, hmove.alone h.exclusive hi hj hne⟩
  constructor
  · exact h.exclusive.set hi (hmove.lawful hi)
  · constructor
    · exact fun hquiet => hleaves.quiet (hquiet _ hself)
    · intro other hother entry hentry
      rcases hcases other hother with rfl | ⟨-, hnone⟩
      · exact hleaves.underWay entry hentry
      · rw [hnone] at hentry
        cases hentry
    · intro other hother reply hreply
      rcases hcases other hother with rfl | ⟨hold, -⟩
      · exact hleaves.reply reply hreply
      · exact (h.serialized.replies other hold reply hreply).mono ops
  · intro other hother
    show other.since ≤ (s.history ++ ops).length
    rw [List.length_append]
    rcases hcases other hother with rfl | ⟨hold, -⟩
    · exact Nat.le_add_right_of_le (h.since task hmem)
    · exact Nat.le_add_right_of_le (h.since other hold)
  · show (s.history ++ ops).countP PartitionOp.isAppend < s.opened
    rw [List.countP_append, hcount]
    exact h.appends
  · show s.recovered = (after policy (s.history ++ ops)).history
    rw [h.recovered, after_append, history_run_of_noAppend _ hcount]

/-- A call is made. -/
theorem Inv.call (h : Inv policy s) (call : QueueCall) : Inv policy (s.step (.call call)) := by
  constructor
  · exact h.exclusive.concat rfl
  · constructor
    · exact fun hquiet => h.serialized.quiet fun task htask =>
        hquiet task (List.mem_append_left _ htask)
    · intro task htask entry hentry
      rcases List.mem_append.mp htask with hold | hnew
      · exact h.serialized.underWay task hold entry hentry
      · rw [List.mem_singleton.mp hnew] at hentry
        cases hentry
    · intro task htask reply hreply
      rcases List.mem_append.mp htask with hold | hnew
      · exact h.serialized.replies task hold reply hreply
      · rw [List.mem_singleton.mp hnew] at hreply
        cases hreply
  · intro task htask
    rcases List.mem_append.mp htask with hold | hnew
    · exact h.since task hold
    · rw [List.mem_singleton.mp hnew]
      exact Nat.le_refl _
  · exact h.appends
  · exact h.recovered

/-- The file is that of the operations, with the append under way if its entry is there. -/
theorem Inv.wal_eq (h : Inv policy s) :
    s.queue.wal = (after policy (s.history ++ s.loggedOps)).queue.wal := by
  have hnotLogged : ∀ task ∈ s.tasks, task.phase.entry? ≠ none → task.loggedOp? = none →
      s.queue.wal = (after policy s.history).queue.wal := by
    intro task htask hentry hlogged
    obtain ⟨entry, hentry⟩ := Option.ne_none_iff_exists'.mp hentry
    rw [(h.serialized.underWay task htask entry hentry).2]
    unfold QueueTask.loggedOp? at hlogged
    cases hphase : task.phase with
    | numbered entry => rfl
    | logged entry | counted entry | pushed entry =>
        rw [hphase] at hlogged
        cases hlogged
    | called | locked | returned reply | panicked =>
        rw [hphase] at hentry
        cases hentry
  unfold loggedOps
  cases hfind : s.tasks.findSome? QueueTask.loggedOp? with
  | none =>
      rw [Option.toList_none, List.append_nil]
      have hnone := List.findSome?_eq_none_iff.mp hfind
      by_cases hquiet : ∀ task ∈ s.tasks, task.phase.entry? = none
      · rw [h.serialized.quiet hquiet]
      · simp only [not_forall] at hquiet
        obtain ⟨task, htask, hentry⟩ := hquiet
        exact hnotLogged task htask hentry (hnone task htask)
  | some op =>
      obtain ⟨task, htask, hop⟩ := List.exists_of_findSome?_eq_some hfind
      -- the entry of the append is the last one in the file
      have hlast : ∀ entry, task.phase.entry? = some entry →
          op = .append entry.payload entry.partitionId entry.timestamp entry.timestamp →
          (task.phase.changes (after policy s.history).queue).wal =
            (after policy s.history).queue.wal.map (fun w => w.append entry) →
          s.queue.wal = (after policy (s.history ++ [op])).queue.wal := by
        intro entry hentry hop hwal
        obtain ⟨htakes, hqueue⟩ := h.serialized.underWay task htask entry hentry
        rw [after_append, hop, hqueue, hwal]
        exact (htakes.wal_eq (durable_after policy s.history) entry.timestamp).symm
      unfold QueueTask.loggedOp? at hop
      cases hphase : task.phase with
      | logged entry | counted entry | pushed entry =>
          rw [hphase] at hop hlast
          exact hlast entry rfl (Option.some.inj hop).symm rfl
      | called | locked | numbered entry | returned reply | panicked =>
          rw [hphase] at hop
          cases hop

theorem countP_loggedOps (s : QueueTasks) : s.loggedOps.countP PartitionOp.isAppend ≤ 1 := by
  refine List.countP_le_length.trans ?_
  unfold loggedOps
  cases s.tasks.findSome? QueueTask.loggedOp? with
  | none => exact Nat.zero_le 1
  | some op => exact Nat.le_refl 1

/-- The log has at most one entry for each start. -/
theorem Inv.opened (h : Inv policy s) :
    (s.history ++ s.loggedOps).countP PartitionOp.isAppend ≤ s.opened := by
  rw [List.countP_append]
  exact (Nat.add_le_add_left (countP_loggedOps s) _).trans h.appends

/-- The process ends, and the partition is started again. -/
theorem Inv.restart (h : Inv policy s) (policy' : RetentionPolicy) :
    Inv policy (s.step (.restart policy')) where
  exclusive := RwLock.exclusive_nil
  serialized :=
    { quiet := by
        intro _
        show (PartitionQueue.new policy' s.queue.wal).getD s.queue =
          (after policy (s.history ++ s.loggedOps ++ [.restart policy'])).queue
        rw [h.wal_eq, after_append policy (s.history ++ s.loggedOps) [.restart policy']]
        exact new_getD (durable_after policy (s.history ++ s.loggedOps)) policy' s.queue
      underWay := by rintro task ⟨⟩
      replies := by rintro task ⟨⟩ }
  since := by rintro task ⟨⟩
  appends := by
    show (s.history ++ s.loggedOps ++ [PartitionOp.restart policy']).countP
      PartitionOp.isAppend < s.opened + 1
    rw [List.countP_append]
    exact Nat.lt_succ_of_le h.opened
  recovered := by
    have hdurable := durable_after policy (s.history ++ s.loggedOps)
    show ((PartitionQueue.new policy' s.queue.wal).getD s.queue).messages =
      (after policy (s.history ++ s.loggedOps ++ [.restart policy'])).history
    rw [h.wal_eq, after_append policy (s.history ++ s.loggedOps) [.restart policy'],
      hdurable.new_eq policy']
    rfl

/-- **Step lemma.** -/
theorem Inv.step (h : Inv policy s) (label : QueueLabel) : Inv policy (s.step label) := by
  cases label with
  | call call => exact h.call call
  | task i now =>
      simp only [QueueTasks.step]
      split
      · rename_i task hi
        rcases stepTask_cases s i now task with hwait | ⟨phase, queue, ops, hmove, hgo⟩
        · rw [hwait]
          exact h
        · rw [hgo]
          exact h.move hi hmove
      · exact h
  | restart policy' => exact h.restart policy'

theorem inv_always (policy : RetentionPolicy) (labels : List QueueLabel) :
    Always step (Inv policy) (start policy) labels :=
  Always.of_along (C := fun _ _ => True) (inv_start policy) (Along.of_forall fun _ _ => trivial)
    fun _ label h _ => h.step label

/-! ### One message for each start -/

/-- No append is among the calls that have returned. -/
theorem Explained.not_appended {history : List PartitionOp} {offset : Int64}
    (h : Explained policy history task (.appended offset)) : False := by
  obtain ⟨k, -, -, hanswer, -⟩ := h
  cases hcall : task.call with
  | append payload partitionId | readFrom startOffset maxMessages | acknowledge offset consumerId
  | cleanupAcknowledged | enforceRetentionPolicy | addMetrics m =>
      rw [hcall] at hanswer
      cases hanswer

/-- What a reader has got was in the log already. -/
theorem Explained.entries {history : List PartitionOp} {read : List MessageEntry}
    (h : Explained policy history task (.entries read)) {e : MessageEntry} (he : e ∈ read) :
    e.unacknowledged ∈ (after policy history).history := by
  obtain ⟨k, -, -, hanswer, -⟩ := h
  -- it is in the log after the first `k` operations
  have hmem : e.unacknowledged ∈ (after policy (history.take k)).history := by
    refine (durable_after policy (history.take k)).sublist.mem (List.mem_map_of_mem ?_)
    cases hcall : task.call with
    | readFrom startOffset maxMessages =>
        rw [hcall] at hanswer
        cases hanswer
        exact List.mem_of_mem_filter (List.mem_of_mem_take he)
    | append payload partitionId | acknowledge offset consumerId | cleanupAcknowledged
    | enforceRetentionPolicy | addMetrics m =>
        rw [hcall] at hanswer
        cases hanswer
  obtain ⟨es, hes, -⟩ := history_run (after policy (history.take k)) (history.drop k)
  rw [← after_append, List.take_append_drop] at hes
  rw [hes]
  exact List.mem_append_left _ hmem

/-- The entries in the log are no more than the appends. -/
theorem length_history_after (policy : RetentionPolicy) (ops : List PartitionOp) :
    (after policy ops).history.length ≤ ops.countP PartitionOp.isAppend := by
  obtain ⟨es, hes, hle⟩ := history_run (PartitionRun.start policy) ops
  rw [after, hes]
  exact hle

theorem Inv.onePerStart (h : Inv policy s) : OnePerStart s where
  appends := h.appends
  noOffset task htask offset hphase :=
    (h.serialized.replies task htask _ hphase).not_appended
  log := by
    have hdurable := durable_after policy (s.history ++ s.loggedOps)
    refine ⟨(after policy (s.history ++ s.loggedOps)).history, ?_, ?_, ?_, ?_, ?_, ?_⟩
    · rw [h.wal_eq]
      exact hdurable.wal_eq
    · exact (counted_after policy _).numbered
    · exact (length_history_after policy _).trans h.opened
    · intro policy'
      rw [h.wal_eq]
      exact ⟨_, hdurable.new_eq policy', rfl⟩
    · obtain ⟨es, hes, -⟩ := history_run (after policy s.history) s.loggedOps
      rw [after_append, hes, h.recovered]
      exact List.prefix_append _ _
    · rw [h.recovered]
      exact (length_history_after policy s.history).trans_lt h.appends
  readers task htask read hphase e he := by
    rw [h.recovered]
    exact (h.serialized.replies task htask _ hphase).entries he

/-- What has been done stays done. -/
theorem history_prefix_step (s : QueueTasks) (label : QueueLabel) :
    s.history <+: (s.step label).history := by
  cases label with
  | call call => exact List.prefix_refl _
  | task i now =>
      simp only [step]
      split
      · rename_i task hi
        rcases stepTask_cases s i now task with hwait | ⟨phase, queue, ops, -, hgo⟩
        · rw [hwait]
        · rw [hgo]
          exact List.prefix_append _ _
      · exact List.prefix_refl _
  | restart policy =>
      show s.history <+: s.history ++ s.loggedOps ++ [PartitionOp.restart policy]
      rw [List.append_assoc]
      exact List.prefix_append _ _

theorem history_prefix (s : QueueTasks) (labels : List QueueLabel) :
    s.history <+: (labels.foldl step s).history := by
  induction labels generalizing s with
  | nil => exact List.prefix_refl _
  | cons label labels ih => exact (history_prefix_step s label).trans (ih (s.step label))

/-- **One append for each start.**  Whatever the calls, the interleaving and the restarts,
the queue is that of a run of operations one after the other, but for what an append under
way has done, and the run is only added to.  The log has the numbers from 0 on, no more of
them than there have been starts, and no append ever returns its number. -/
theorem one_append_per_start (policy : RetentionPolicy) (labels : List QueueLabel) :
    Always step (fun s => Serialized policy s ∧ OnePerStart s) (start policy) labels ∧
      ∀ later, (labels.foldl step (start policy)).history <+:
        ((labels ++ later).foldl step (start policy)).history := by
  refine ⟨(inv_always policy labels).mono fun s h => ⟨h.serialized, h.onePerStart⟩, ?_⟩
  intro later
  rw [List.foldl_append]
  exact history_prefix _ later

/-! ### Nothing returns after an append -/

/-- A call that has just been made. -/
def made (since : Nat) : QueueLabel → Option QueueTask
  | .call call => some ⟨call, since, .called⟩
  | .task _ _ | .restart _ => none

/-- Beside an append that has its number no call goes on. -/
theorem not_moves (hexcl : RwLock.Exclusive QueueTask.messagesGuard s.tasks)
    {entry : MessageEntry} (hi : s.tasks[i]? = some task)
    (hentry : task.phase.entry? = some entry) {j : Nat} {other : QueueTask}
    (hj : s.tasks[j]? = some other) (hne : j ≠ i) : ¬ Moves s now other phase queue ops := by
  intro hmove
  have hnone := hexcl.alone hi (guard_of_entry hentry) hj hne
  have hlocked : other.phase ≠ .locked := by
    intro hphase
    rw [guard_of_locked hphase] at hnone
    cases hnone
  cases hmove with
  | lock hphase hfree =>
      exact (RwLock.guard_of_admits hfree hi).1 (guard_of_entry hentry)
  | number hphase hcall hroom => exact hlocked hphase
  | go hentry' hnext hqueue =>
      rw [guard_of_entry hentry'] at hnone
      cases hnone
  | serve hphase hreply hops hqueue => exact hlocked hphase
  | panic hphase => exact hlocked hphase
  | relock hphase hfree => exact not_relock hj hphase hfree

/-- An append that has its number keeps its entry, and its guards, for good. -/
theorem Moves.keeps_entry (hmove : Moves s now task phase queue ops)
    (hi : s.tasks[i]? = some task) {entry : MessageEntry}
    (hentry : task.phase.entry? = some entry) : phase.entry? = some entry ∧ ops = [] := by
  have hlocked : task.phase ≠ .locked := by
    intro hphase
    rw [hphase] at hentry
    cases hentry
  cases hmove with
  | lock hphase hfree =>
      rw [hphase] at hentry
      cases hentry
  | number hphase hcall hroom => exact absurd hphase hlocked
  | go hentry' hnext hqueue => exact ⟨hnext.trans (hentry'.symm.trans hentry), rfl⟩
  | serve hphase hreply hops hqueue => exact absurd hphase hlocked
  | panic hphase => exact absurd hphase hlocked
  | relock hphase hfree => exact absurd hfree (not_relock hi hphase)

theorem set_same (hi : s.tasks[i]? = some task) : s.tasks.set i task = s.tasks := by
  obtain ⟨hlt, hget⟩ := List.getElem?_eq_some_iff.mp hi
  rw [← hget, List.set_getElem_self]

/-- **Step lemma.**  An append that has its number may go on, and the other calls stay
where they are. -/
theorem frozen_step (hexcl : RwLock.Exclusive QueueTask.messagesGuard s.tasks)
    {entry : MessageEntry} (hi : s.tasks[i]? = some task)
    (hentry : task.phase.entry? = some entry) (label : QueueLabel)
    (hlabel : ∀ policy, label ≠ .restart policy) :
    (s.step label).history = s.history ∧ ∃ phase, phase.entry? = some entry ∧
      (s.step label).tasks =
        s.tasks.set i { task with phase := phase } ++
          [label].filterMap (made s.history.length) := by
  cases label with
  | call call => exact ⟨rfl, task.phase, hentry, congrArg (· ++ _) (set_same hi).symm⟩
  | task j now =>
      have hwaits : s.history = s.history ∧ ∃ phase, phase.entry? = some entry ∧
          s.tasks = s.tasks.set i { task with phase := phase } ++ [] :=
        ⟨rfl, task.phase, hentry, by rw [List.append_nil]; exact (set_same hi).symm⟩
      simp only [step]
      split
      · rename_i other hj
        rcases stepTask_cases s j now other with hwait | ⟨phase, queue, ops, hmove, hgo⟩
        · rw [hwait]
          exact hwaits
        · by_cases hne : j = i
          · subst hne
            rw [hi] at hj
            cases hj
            obtain ⟨hnext, rfl⟩ := hmove.keeps_entry hi hentry
            rw [hgo]
            exact ⟨List.append_nil _, phase, hnext, (List.append_nil _).symm⟩
          · exact absurd hmove (not_moves hexcl hi hentry hj hne)
      · exact hwaits
  | restart policy => exact absurd rfl (hlabel policy)

/-- **Run lemma.**  The calls stay where they are until the next start. -/
theorem frozen_run (h : Inv policy s) {entry : MessageEntry} (hi : s.tasks[i]? = some task)
    (hentry : task.phase.entry? = some entry) (labels : List QueueLabel)
    (hopen : ∀ policy, QueueLabel.restart policy ∉ labels) :
    (labels.foldl step s).history = s.history ∧ ∃ phase, phase.entry? = some entry ∧
      (labels.foldl step s).tasks =
        s.tasks.set i { task with phase := phase } ++
          labels.filterMap (made s.history.length) := by
  induction labels generalizing s task with
  | nil =>
      refine ⟨rfl, task.phase, hentry, ?_⟩
      rw [List.filterMap_nil, List.append_nil]
      exact (set_same hi).symm
  | cons label labels ih =>
      obtain ⟨hhistory, phase, hphase, htasks⟩ := frozen_step h.exclusive hi hentry label
        fun policy' hlabel => hopen policy' (hlabel ▸ List.mem_cons_self)
      have hlt : i < (s.tasks.set i { task with phase := phase }).length := by
        rw [List.length_set]
        exact (List.getElem?_eq_some_iff.mp hi).1
      have hi' : (s.step label).tasks[i]? = some { task with phase := phase } := by
        rw [htasks, List.getElem?_append_left hlt, List.getElem?_set_self]
        rwa [List.length_set] at hlt
      obtain ⟨hhistory', phase', hphase', htasks'⟩ := ih (h.step label) hi' hphase
        fun policy' hmem => hopen policy' (List.mem_cons_of_mem label hmem)
      refine ⟨hhistory'.trans hhistory, phase', hphase', ?_⟩
      rw [List.foldl_cons, htasks', htasks, hhistory, List.set_append_left _ _ hlt, List.set_set,
        List.append_assoc, ← List.filterMap_append, List.singleton_append]

/-- **Nothing returns after an append.**  Once an append has its number, then until the next
start no operation is done, no call but the append gets any further, and the append gets no
further than to where it asks for the guard that it has; calls that are made only add to
those that wait. -/
theorem nothing_returns_after_append (policy : RetentionPolicy) (labels later : List QueueLabel)
    {i : Nat} {task : QueueTask} {entry : MessageEntry}
    (hi : (labels.foldl step (start policy)).tasks[i]? = some task)
    (hentry : task.phase.entry? = some entry)
    (hopen : ∀ policy', QueueLabel.restart policy' ∉ later) :
    ((labels ++ later).foldl step (start policy)).history =
        (labels.foldl step (start policy)).history ∧
      ∃ phase, phase.entry? = some entry ∧ ((labels ++ later).foldl step (start policy)).tasks =
        (labels.foldl step (start policy)).tasks.set i { task with phase := phase } ++
          later.filterMap (made (labels.foldl step (start policy)).history.length) := by
  rw [List.foldl_append]
  exact frozen_run (inv_always policy labels).last hi hentry later hopen

/-- An append that has its number. -/
def appendLabels : List QueueLabel :=
  [.call (.append Storage.helloWorld 0), .task 0 .unixEpoch, .task 0 .unixEpoch]

/-- A reader who comes after it. -/
def readerLabels : List QueueLabel := [.call (.readFrom 0 100), .task 1 .unixEpoch]

theorem nothing_returns_after_append_reader :
    ∃ phase : QueuePhase, phase.entry? = some ⟨0, Storage.helloWorld, .unixEpoch, 0, ∅⟩ ∧
      ((appendLabels ++ readerLabels).foldl step (start .default)).tasks =
        [⟨.append Storage.helloWorld 0, 0, phase⟩, ⟨.readFrom 0 100, 0, .called⟩] := by
  have htask : (appendLabels.foldl step (start .default)).tasks[0]? =
      some ⟨.append Storage.helloWorld 0, 0,
        .numbered ⟨0, Storage.helloWorld, .unixEpoch, 0, ∅⟩⟩ := by decide
  exact (nothing_returns_after_append .default appendLabels readerLabels htask rfl
    (by simp [readerLabels])).2

end QueueTasks

end Rafka
