/-
Rafka/Ledger.lean

Which messages a broker takes in (`Broker::publish` and `Broker::forward_message` in
`crates/broker/src/broker.rs`).

A message is taken in when it enters the batcher, or when it is appended to the
storage without having been there.  `publish` takes in messages of its own
partition only, and `forward_message` what it was asked to store in its own
partition.  The rest is forwarded, or refused.

The ledger of a broker lists what was taken in.  Main results: no message is in it
twice, all are at home on the broker, and whatever waits in the batcher, is being
processed or has been stored is accounted for (`Books`); what was stored is found
under its offset in the log of the broker's own partition, which is the only one
it has (`Filed`).  Both hold after every step of a broker (`Books.step`,
`Filed.step`) and after a restart.
-/
import Rafka.Cluster

namespace Rafka

/-! ### Messages and their partitions -/

/-- The partition of a key. -/
def partitionOf (totalPartitions : UInt32) (key : String) : UInt32 :=
  PublishState.hashKey key % totalPartitions

/-- What the answer says to a message of another partition. -/
def ForwardMessageRequest.wrongPartition (req : ForwardMessageRequest) (partitionId : UInt32) :
    String :=
  "Message forwarded to wrong partition. Expected " ++ toString partitionId ++ ", got " ++
    toString req.targetPartition

/-- The message has not been looked at, or it has been refused. -/
def ForwardPhase.Refused (partitionId : UInt32) (req : ForwardMessageRequest) :
    ForwardPhase → Prop
  | .checkPartition | .lost => True
  | .returned result => result = .error (req.wrongPartition partitionId)
  | .ensureTopic | .direct _ => False

namespace Task

/-- The request of a call that publishes a message, here or for another broker. -/
def request : Task → Option (PublishRequest ⊕ ForwardMessageRequest)
  | .publish req _ => some (.inl req)
  | .forwardMessage req _ => some (.inr req)
  | .flusher _ | .consume _ _ => none

/-- The message is for the partition of the broker. -/
def AtHome (total partitionId : UInt32) : Task → Prop
  | .publish req _ => partitionOf total req.key = partitionId
  | .forwardMessage req _ => req.targetPartition.toUInt32 = partitionId
  | .flusher _ | .consume _ _ => True

/-- A message of another partition is not on its way into this one. -/
def Placed (total partitionId : UInt32) : Task → Prop
  | .publish req (.forward target) | .publish req (.forwarded target) =>
      target = partitionOf total req.key ∧ target ≠ partitionId
  | .publish _ .returned | .publish _ .lost => True
  | .publish req _ => partitionOf total req.key = partitionId
  | .forwardMessage req phase =>
      req.targetPartition.toUInt32 = partitionId ∨ phase.Refused partitionId req
  | .flusher _ | .consume _ _ => True

/-- The message has not been taken in, but it may still be. -/
def mayTake : Task → Bool
  | .publish _ .ensureTopic | .publish _ .addMessage | .publish _ (.single .append) => true
  | .forwardMessage _ .checkPartition | .forwardMessage _ .ensureTopic
  | .forwardMessage _ (.direct .append) => true
  | _ => false

/-- The call has asked another broker, or it is over. -/
def called : Task → Bool
  | .publish _ (.forwarded _) | .publish _ .returned | .publish _ .lost => true
  | _ => false

/-- What was popped from the batcher and is still to be stored. -/
def popped : Task → List Tagged
  | .flusher drain => drain.hand.requests
  | .publish _ (.processing drain) => drain.hand.requests
  | _ => []

theorem mayTake_single (req : PublishRequest) {direct : Direct} (h : direct ≠ .append) :
    (Task.publish req (.single direct)).mayTake = false := by
  cases direct <;> first | exact absurd rfl h | rfl

theorem mayTake_direct (req : ForwardMessageRequest) {direct : Direct} (h : direct ≠ .append) :
    (Task.forwardMessage req (.direct direct)).mayTake = false := by
  cases direct <;> first | exact absurd rfl h | rfl

variable {x y : Task} {total partitionId : UInt32}

theorem AtHome.congr (h : x.AtHome total partitionId) (heq : y.request = x.request) :
    y.AtHome total partitionId := by
  cases x <;> cases y <;> cases heq <;> exact h

theorem message_congr (heq : y.request = x.request) (i : Nat) : y.message i = x.message i := by
  cases x <;> cases y <;> cases heq <;> rfl

end Task

namespace Node

/-- What an operation on a message that is not batched takes in. -/
def takenDirect (n : Node) (t : Tagged) : Direct → List Tagged
  | .append => if (n.store t).1.isSome then [t] else []
  | _ => []

/-- What a step of task `i` takes in. -/
def taken (n : Node) (env : StepEnv) (i : Nat) : Task → List Tagged
  | .publish req .addMessage =>
      match n.batcher.addMessage ⟨i, req⟩ (env.now 0) with
      | .ok _ => [⟨i, req⟩]
      | .error _ => []
  | .publish req (.single direct) => n.takenDirect ⟨i, req⟩ direct
  | .forwardMessage req (.direct direct) => n.takenDirect ⟨i, req.message⟩ direct
  | _ => []

/-- The messages that were stored. -/
def storedMessages (n : Node) : List Tagged := n.stored.map Prod.fst

/-- The log of a topic in the broker's own partition, or what its file holds if the
topic has not been used yet. -/
def log (n : Node) (topic : String) : Log :=
  (n.broker.storage.log? topic n.broker.partition).getD (n.recovered topic)

/-- The ledger is in order: the messages in it are at home here and are in it once,
and it accounts for all that waits, is being processed or has been stored. -/
structure Books (total : UInt32) (n : Node) (ledger : List Tagged) : Prop where
  shared : n.totalPartitions = total
  room : 0 < n.batcher.batchSize
  placed : ∀ task ∈ n.tasks, task.Placed total n.broker.partitionId
  taken : ∀ t ∈ ledger, ∃ task, n.tasks[t.tag]? = some task ∧ task.message t.tag = some t ∧
    task.mayTake = false ∧ task.AtHome total n.broker.partitionId
  nodup : ledger.Nodup
  account : ∀ t, n.batcher.pending.count t + (n.tasks.flatMap Task.popped).count t +
    n.storedMessages.count t ≤ ledger.count t

/-- The broker has logs in its own partition only, and what was stored is found
there. -/
structure Filed (n : Node) : Prop where
  own : ∀ topic partition, n.broker.storage.log? topic partition ≠ none →
    partition = n.broker.partition ∧ topic ∈ n.topics
  found : ∀ entry ∈ n.stored, ∃ k : Nat, entry.2 = Int64.ofNat k ∧
    (n.log entry.1.req.topic)[k]? = some (utf8 entry.1.req.payload)

variable {n n' : Node} {env : StepEnv} {i : Nat} {task : Task} {total : UInt32}

/-! ### What a step of a task does to the books -/

/-- A message that is stored is one more. -/
theorem count_store (n : Node) (t u : Tagged) :
    (n.store t).2.storedMessages.count u =
      n.storedMessages.count u + if (n.store t).1.isSome then [t].count u else 0 := by
  cases hstore : n.store t with
  | mk offset n' =>
      cases offset with
      | some offset =>
          rw [store_eq_some hstore]
          simp [storedMessages, List.count_append]
      | none =>
          obtain ⟨-, rfl⟩ := store_eq_none hstore
          simp

/-- The batcher and the answers stay. -/
structure Aside (n n' : Node) : Prop where
  batcher : n'.batcher = n.batcher
  responses : n'.responses = n.responses

theorem aside_store (n : Node) (t : Tagged) : Aside n (n.store t).2 := by
  cases hstore : n.store t with
  | mk offset n' =>
      cases offset with
      | some offset =>
          rw [store_eq_some hstore]
          exact ⟨rfl, rfl⟩
      | none =>
          rw [(store_eq_none hstore).2]
          exact ⟨rfl, rfl⟩

theorem aside_stepDrain (channel : Broker → Channel × Broker) (fresh : Fresh) (n : Node)
    (d : Drain) : Aside n (n.stepDrain channel fresh d).2 := by
  obtain ⟨current, queue⟩ := d
  match current with
  | none =>
      cases queue with
      | nil => exact ⟨rfl, rfl⟩
      | cons messages queue =>
          simp only [stepDrain]
          split <;> exact ⟨rfl, rfl⟩
  | some (.framing messages call) =>
      simp only [stepDrain]
      split <;> exact ⟨rfl, rfl⟩
  | some (.loop sender []) => exact ⟨rfl, rfl⟩
  | some (.loop sender ((u, processedPayload) :: todo)) =>
      have haside := n.aside_store u
      simp only [stepDrain]
      split <;> rename_i heq <;> rw [heq] at haside <;> exact ⟨haside.batcher, haside.responses⟩
  | some (.send sender delivery todo) => exact ⟨rfl, rfl⟩

theorem fst_zip_sublist {α β : Type} (l : List α) (l' : List β) :
    ((l.zip l').map Prod.fst).Sublist l := by
  induction l generalizing l' with
  | nil => exact List.Sublist.refl _
  | cons x l ih =>
      cases l' with
      | nil => exact List.nil_sublist _
      | cons y l' => exact (ih l').cons_cons x

/-- What was popped is stored, or dropped. -/
theorem count_stepDrain (channel : Broker → Channel × Broker) (fresh : Fresh) (n : Node)
    (d : Drain) (t : Tagged) :
    (n.stepDrain channel fresh d).1.hand.requests.count t +
        (n.stepDrain channel fresh d).2.storedMessages.count t ≤
      d.hand.requests.count t + n.storedMessages.count t := by
  obtain ⟨current, queue⟩ := d
  match current with
  | none =>
      cases queue with
      | nil => exact Nat.le_refl _
      | cons messages queue =>
          simp only [stepDrain]
          split
          · rename_i hempty
            rw [List.isEmpty_iff.mp hempty]
            exact Nat.le_refl _
          · exact Nat.le_refl _
  | some (.framing messages call) =>
      simp only [stepDrain]
      split
      · exact Nat.le_refl _
      · rename_i result hreturned
        -- a framing that is too short drops messages
        have hzip := (fst_zip_sublist messages (Broker.resultIter result)).count_le t
        show ((messages.zip (Broker.resultIter result)).map Prod.fst ++ queue.flatten).count t +
            n.storedMessages.count t ≤
          (messages ++ queue.flatten).count t + n.storedMessages.count t
        rw [List.count_append, List.count_append]
        omega
  | some (.loop sender []) => exact Nat.le_refl _
  | some (.loop sender ((u, processedPayload) :: todo)) =>
      have hstore := n.count_store u t
      have hhand : (Drain.hand ⟨some (.loop sender ((u, processedPayload) :: todo)),
          queue⟩).requests.count t = [u].count t +
            (todo.map Prod.fst ++ queue.flatten).count t := by
        show ([u] ++ (todo.map Prod.fst ++ queue.flatten)).count t = _
        rw [List.count_append]
      rw [hhand]
      simp only [stepDrain]
      split
      · rename_i offset n' heq
        rw [heq] at hstore
        show (todo.map Prod.fst ++ queue.flatten).count t + n'.storedMessages.count t ≤ _
        simp only [Option.isSome_some, if_true] at hstore
        omega
      · rename_i n' heq
        rw [heq] at hstore
        show (todo.map Prod.fst ++ queue.flatten).count t + n'.storedMessages.count t ≤ _
        simp only [Option.isSome_none, Bool.false_eq_true, if_false] at hstore
        omega
  | some (.send sender delivery todo) => exact Nat.le_refl _

theorem count_stepDirect (fresh : Fresh) (n : Node) (t u : Tagged) (direct : Direct) :
    (n.stepDirect fresh t direct).2.storedMessages.count u =
      n.storedMessages.count u + (n.takenDirect t direct).count u := by
  cases direct with
  | append =>
      have hstore := n.count_store t u
      simp only [stepDirect, takenDirect]
      split <;> rename_i heq <;> rw [heq] at hstore <;> simpa [heq] using hstore
  | ensureChannel delivery => rfl
  | send sender delivery => rfl
  | sent delivery => rfl
  | failed => rfl

theorem aside_stepDirect (fresh : Fresh) (n : Node) (t : Tagged) (direct : Direct) :
    Aside n (n.stepDirect fresh t direct).2 := by
  cases direct with
  | append =>
      have haside := n.aside_store t
      simp only [stepDirect]
      split <;> rename_i heq <;> rw [heq] at haside <;> exact haside
  | ensureChannel delivery => exact ⟨rfl, rfl⟩
  | send sender delivery => exact ⟨rfl, rfl⟩
  | sent delivery => exact ⟨rfl, rfl⟩
  | failed => exact ⟨rfl, rfl⟩

theorem books_ensureTopic (n : Node) (topic : String) :
    (n.ensureTopic topic).batcher = n.batcher ∧ (n.ensureTopic topic).stored = n.stored := by
  unfold ensureTopic
  split <;> exact ⟨rfl, rfl⟩

/-- What the batcher, the task and the storage have together. -/
def tally (n : Node) (task : Task) (u : Tagged) : Nat :=
  n.batcher.pending.count u + task.popped.count u + n.storedMessages.count u

/-- Popped requests are no longer in the batcher. -/
theorem tally_getReadyBatches (n : Node) (now : Nat → Instant) (u : Tagged) :
    (n.batcher.getReadyBatches now).2.pending.count u +
        ((n.batcher.getReadyBatches now).1.map MessageBatch.messages).flatten.count u =
      n.batcher.pending.count u := by
  have hsplit := BatchedProcessor.flatMap_getReadyBatches n.batcher now
  rw [List.flatMap_def] at hsplit
  rw [← hsplit, List.count_append, Nat.add_comm]

theorem tally_stepPublish (env : StepEnv) (n : Node) (i : Nat) (req : PublishRequest)
    (phase : PublishPhase) (hroom : 0 < n.batcher.batchSize) (u : Tagged) :
    (n.stepPublish env ⟨i, req⟩ phase).2.tally (n.stepPublish env ⟨i, req⟩ phase).1 u ≤
      n.tally (.publish req phase) u + (n.taken env i (.publish req phase)).count u := by
  have hsame : n.tally (.publish req phase) u ≤
      n.tally (.publish req phase) u + (n.taken env i (.publish req phase)).count u :=
    Nat.le_add_right _ _
  cases phase with
  | ensureTopic =>
      obtain ⟨hbatcher, hstored⟩ := books_ensureTopic n req.topic
      simp only [stepPublish, tally, storedMessages, hbatcher, hstored]
      exact hsame
  | addMessage =>
      simp only [stepPublish]
      split
      · rename_i batcher hadd
        have hpending := BatchedProcessor.pending_addMessage hroom hadd
        have htaken : n.taken env i (.publish req .addMessage) = [⟨i, req⟩] := by
          simp only [taken, hadd]
        simp only [tally, hpending, htaken, List.count_append, Task.popped, storedMessages]
        omega
      · exact hsame
  | single direct =>
      have hcount := n.count_stepDirect env.fresh ⟨i, req⟩ u direct
      have hbatcher := (n.aside_stepDirect env.fresh ⟨i, req⟩ direct).batcher
      cases direct with
      | sent delivery => exact hsame
      | failed => exact hsame
      | _ =>
          simp only [stepPublish, tally, hbatcher, hcount, taken]
          exact Nat.le_of_eq (Nat.add_assoc _ _ _).symm
  | getReadyBatches =>
      have hpopped := n.tally_getReadyBatches env.now u
      simp only [stepPublish, tally]
      show (n.batcher.getReadyBatches env.now).2.pending.count u +
        ((n.batcher.getReadyBatches env.now).1.map MessageBatch.messages).flatten.count u +
          n.storedMessages.count u ≤ _
      rw [hpopped]
      exact hsame
  | processing drain =>
      simp only [stepPublish]
      split
      · simp only [tally, Task.popped, List.count_nil]
        omega
      · have hcount := count_stepDrain Broker.ensureChannel env.fresh n drain u
        simp only [tally, Task.popped, (aside_stepDrain _ _ _ _).batcher, taken] at hcount ⊢
        omega
  | respond => exact hsame
  | forward targetPartition => exact hsame
  | forwarded targetPartition => exact hsame
  | returned => exact hsame
  | lost => exact hsame

/-- **What a step of a task has more of, it has taken in.** -/
theorem tally_stepTask (env : StepEnv) (n : Node) (i : Nat) (task : Task)
    (hroom : 0 < n.batcher.batchSize) (u : Tagged) :
    (n.stepTask env i task).2.tally (n.stepTask env i task).1 u ≤
      n.tally task u + (n.taken env i task).count u := by
  cases task with
  | flusher drain =>
      simp only [stepTask]
      split
      · have hpopped := n.tally_getReadyBatches env.now u
        show (n.batcher.getReadyBatches env.now).2.pending.count u +
          ((n.batcher.getReadyBatches env.now).1.map MessageBatch.messages).flatten.count u +
            n.storedMessages.count u ≤ _
        rw [hpopped, tally]
        omega
      · have hcount := count_stepDrain Broker.flusherChannel env.fresh n drain u
        simp only [tally, Task.popped, (aside_stepDrain _ _ _ _).batcher, taken] at hcount ⊢
        omega
  | publish req phase => exact tally_stepPublish env n i req phase hroom u
  | forwardMessage req phase =>
      have hsame : n.tally (.forwardMessage req phase) u ≤
          n.tally (.forwardMessage req phase) u +
            (n.taken env i (.forwardMessage req phase)).count u := Nat.le_add_right _ _
      cases phase with
      | checkPartition =>
          simp only [stepTask, stepForward]
          split <;> exact hsame
      | ensureTopic =>
          obtain ⟨hbatcher, hstored⟩ := books_ensureTopic n req.topic
          simp only [stepTask, stepForward, tally, storedMessages, hbatcher, hstored]
          exact hsame
      | direct direct =>
          have hcount := n.count_stepDirect env.fresh ⟨i, req.message⟩ u direct
          have hbatcher := (n.aside_stepDirect env.fresh ⟨i, req.message⟩ direct).batcher
          cases direct with
          | sent delivery => exact hsame
          | failed => exact hsame
          | _ =>
              simp only [stepTask, stepForward, tally, hbatcher, hcount, taken]
              exact Nat.le_of_eq (Nat.add_assoc _ _ _).symm
      | returned result => exact hsame
      | lost => exact hsame
  | consume req phase =>
      have hsame : n.tally (.consume req phase) u ≤
          n.tally (.consume req phase) u + (n.taken env i (.consume req phase)).count u :=
        Nat.le_add_right _ _
      cases phase <;> exact hsame

/-! ### Which messages are taken in -/

/-- What a step takes in is the message of the task, which then cannot be taken in
again. -/
theorem taken_cases (env : StepEnv) (n : Node) (i : Nat) (task : Task) :
    n.taken env i task = [] ∨
      ∃ t, n.taken env i task = [t] ∧ task.message i = some t ∧ task.mayTake = true ∧
        (n.stepTask env i task).1.mayTake = false ∧
        ∀ total partitionId, task.Placed total partitionId → task.AtHome total partitionId := by
  cases task with
  | flusher drain => exact .inl rfl
  | consume req phase => exact .inl rfl
  | publish req phase =>
      cases phase with
      | addMessage =>
          cases hadd : n.batcher.addMessage ⟨i, req⟩ (env.now 0) with
          | error e => exact .inl (by simp only [taken, hadd])
          | ok batcher =>
              refine .inr ⟨⟨i, req⟩, by simp only [taken, hadd], rfl, rfl, ?_, fun _ _ h => h⟩
              simp only [stepTask, stepPublish, hadd, Task.mayTake]
      | single direct =>
          cases direct with
          | append =>
              cases hstore : n.store ⟨i, req⟩ with
              | mk offset n' =>
                  cases offset with
                  | none => exact .inl (by simp [taken, takenDirect, hstore])
                  | some offset =>
                      refine .inr ⟨⟨i, req⟩, by simp [taken, takenDirect, hstore], rfl, rfl, ?_,
                        fun _ _ h => h⟩
                      simp only [stepTask, stepPublish, stepDirect, hstore, Task.mayTake]
          | _ => exact .inl rfl
      | _ => exact .inl rfl
  | forwardMessage req phase =>
      cases phase with
      | direct direct =>
          cases direct with
          | append =>
              cases hstore : n.store ⟨i, req.message⟩ with
              | mk offset n' =>
                  cases offset with
                  | none => exact .inl (by simp [taken, takenDirect, hstore])
                  | some offset =>
                      refine .inr ⟨⟨i, req.message⟩, by simp [taken, takenDirect, hstore], rfl, rfl,
                        ?_, fun _ _ h => h.resolve_right id⟩
                      simp only [stepTask, stepForward, stepDirect, hstore, Task.mayTake]
          | _ => exact .inl rfl
      | _ => exact .inl rfl

/-- Once it is out of the way, a message that is not batched is not appended. -/
theorem stepDirect_ne_append (fresh : Fresh) (n : Node) (t : Tagged) (direct : Direct) :
    (n.stepDirect fresh t direct).1 ≠ .append := by
  cases direct with
  | append =>
      simp only [stepDirect]
      split <;> rintro ⟨⟩
  | _ => rintro ⟨⟩

/-- How a call goes on: with the same request, and what it has behind it stays
behind it. -/
structure GoesOn (x y : Task) : Prop where
  request : y.request = x.request
  mayTake : x.mayTake = false → y.mayTake = false
  called : x.called = true → y.called = true

theorem GoesOn.refl (x : Task) : GoesOn x x := ⟨rfl, id, id⟩

theorem goesOn_stepTask (env : StepEnv) (n : Node) (i : Nat) (task : Task) :
    GoesOn task (n.stepTask env i task).1 := by
  cases task with
  | flusher drain =>
      simp only [stepTask]
      split <;> exact ⟨rfl, fun _ => rfl, fun h => by cases h⟩
  | consume req phase => cases phase <;> exact ⟨rfl, fun _ => rfl, fun h => by cases h⟩
  | publish req phase =>
      cases phase with
      | addMessage =>
          simp only [stepTask, stepPublish]
          split <;> exact ⟨rfl, fun h => (by cases h), fun h => (by cases h)⟩
      | single direct =>
          have hne := stepDirect_ne_append env.fresh n ⟨i, req⟩ direct
          cases direct with
          | sent delivery => exact ⟨rfl, fun _ => rfl, fun h => by cases h⟩
          | failed => exact ⟨rfl, fun _ => rfl, fun h => by cases h⟩
          | _ =>
              exact ⟨rfl, fun _ => Task.mayTake_single req hne, fun h => by cases h⟩
      | processing drain =>
          simp only [stepTask, stepPublish]
          split <;> exact ⟨rfl, fun _ => rfl, fun h => by cases h⟩
      | ensureTopic => exact ⟨rfl, fun h => (by cases h), fun h => (by cases h)⟩
      | getReadyBatches => exact ⟨rfl, fun _ => rfl, fun h => by cases h⟩
      | respond => exact ⟨rfl, fun _ => rfl, fun h => by cases h⟩
      | _ => exact .refl _
  | forwardMessage req phase =>
      cases phase with
      | checkPartition =>
          simp only [stepTask, stepForward]
          split <;> exact ⟨rfl, fun h => (by cases h), fun h => (by cases h)⟩
      | direct direct =>
          have hne := stepDirect_ne_append env.fresh n ⟨i, req.message⟩ direct
          cases direct with
          | sent delivery => exact ⟨rfl, fun _ => rfl, fun h => by cases h⟩
          | failed => exact ⟨rfl, fun _ => rfl, fun h => by cases h⟩
          | _ =>
              exact ⟨rfl, fun _ => Task.mayTake_direct req hne, fun h => by cases h⟩
      | ensureTopic => exact ⟨rfl, fun h => (by cases h), fun h => (by cases h)⟩
      | returned result => exact .refl _
      | lost => exact .refl _

/-- A message of another partition stays out of this one. -/
theorem placed_stepTask (env : StepEnv) (n : Node) (i : Nat) {task : Task}
    (h : task.Placed total n.broker.partitionId) :
    (n.stepTask env i task).1.Placed total n.broker.partitionId := by
  cases task with
  | flusher drain =>
      simp only [stepTask]
      split <;> trivial
  | consume req phase => cases phase <;> trivial
  | publish req phase =>
      cases phase with
      | addMessage =>
          simp only [stepTask, stepPublish]
          split <;> exact h
      | single direct => cases direct <;> first | exact h | trivial
      | processing drain =>
          simp only [stepTask, stepPublish]
          split <;> exact h
      | respond => trivial
      | _ => exact h
  | forwardMessage req phase =>
      cases phase with
      | checkPartition =>
          simp only [stepTask, stepForward]
          split
          · exact .inr rfl
          · rename_i hsame
            exact .inl (not_not.mp hsame)
      | direct direct => cases direct <;> exact .inl (h.resolve_right id)
      | ensureTopic => exact .inl (h.resolve_right id)
      | returned result => exact h
      | lost => exact h

/-! ### What stays -/

/-- The partition, the number of partitions and the size of batches stay. -/
structure SameSetup (n n' : Node) : Prop where
  partitionId : n'.broker.partitionId = n.broker.partitionId
  totalPartitions : n'.totalPartitions = n.totalPartitions
  batchSize : n'.batcher.batchSize = n.batcher.batchSize

theorem sameSetup_ensureTopic (n : Node) (topic : String) :
    SameSetup n (n.ensureTopic topic) := by
  unfold ensureTopic
  split <;> exact ⟨rfl, rfl, rfl⟩

theorem Effect.sameSetup {h h' : Hand} (heffect : Effect env n i task h h' n') :
    SameSetup n n' := by
  cases heffect with
  | ensureTopic hown => exact sameSetup_ensureTopic n _
  | addMessage hadd => exact ⟨rfl, rfl, BatchedProcessor.batchSize_addMessage hadd⟩
  | getReadyBatches => exact ⟨rfl, rfl, rfl⟩
  | pass processor hsub => exact ⟨rfl, rfl, rfl⟩
  | respond counter hid => exact ⟨rfl, rfl, rfl⟩
  | acquire hch hsub hsender =>
      exact ⟨(channelFrame_of_channeling hch).partitionId n.broker, rfl, rfl⟩
  | acquireFor hch => exact ⟨(channelFrame_of_channeling hch).partitionId n.broker, rfl, rfl⟩
  | storeBatched hnext hstore =>
      obtain rfl := store_eq_some hstore
      exact ⟨rfl, rfl, rfl⟩
  | countBatched counter hnext hstore =>
      obtain ⟨-, rfl⟩ := store_eq_none hstore
      exact ⟨rfl, rfl, rfl⟩
  | storeDirect hstore =>
      obtain rfl := store_eq_some hstore
      exact ⟨rfl, rfl, rfl⟩
  | failDirect hstore =>
      obtain ⟨-, rfl⟩ := store_eq_none hstore
      exact ⟨rfl, rfl, rfl⟩
  | send => exact ⟨rfl, rfl, rfl⟩
  | subscribe => exact ⟨rfl, rfl, rfl⟩

/-! ### The books are kept -/

variable {ledger new : List Tagged} {x y : Task}

theorem tag_of_message {t : Tagged} (h : x.message i = some t) : t.tag = i := by
  cases x with
  | publish req phase =>
      cases h
      rfl
  | forwardMessage req phase =>
      cases h
      rfl
  | flusher drain => cases h
  | consume req phase => cases h

/-- A task moves, and takes in what is `new`. -/
theorem Books.set (h : n.Books total ledger) (hi : n.tasks[i]? = some x)
    (htasks : n'.tasks = n.tasks.set i y) (hsetup : SameSetup n n') (hgoes : GoesOn x y)
    (hplaced : y.Placed total n.broker.partitionId)
    (htally : ∀ u, n'.tally y u ≤ n.tally x u + new.count u) (hnodup : new.Nodup)
    (hnew : ∀ t ∈ new, x.message i = some t ∧ x.mayTake = true ∧ y.mayTake = false ∧
      x.AtHome total n.broker.partitionId) : n'.Books total (ledger ++ new) := by
  have hlt : i < n.tasks.length := (List.getElem?_eq_some_iff.mp hi).1
  have hself : n'.tasks[i]? = some y := by
    rw [htasks]
    exact List.getElem?_set_self hlt
  constructor
  · exact hsetup.totalPartitions.trans h.shared
  · exact hsetup.batchSize.symm ▸ h.room
  · rw [hsetup.partitionId, htasks]
    intro task htask
    rcases List.mem_or_eq_of_mem_set htask with hold | rfl
    · exact h.placed task hold
    · exact hplaced
  · rw [hsetup.partitionId]
    intro t ht
    rcases List.mem_append.mp ht with hold | hnow
    · obtain ⟨task, htask, hmessage, hmay, hhome⟩ := h.taken t hold
      by_cases htag : t.tag = i
      · rw [htag] at htask hmessage ⊢
        rw [hi] at htask
        cases htask
        exact ⟨y, hself, (Task.message_congr hgoes.request i).trans hmessage, hgoes.mayTake hmay,
          hhome.congr hgoes.request⟩
      · refine ⟨task, ?_, hmessage, hmay, hhome⟩
        rw [htasks, List.getElem?_set_ne (Ne.symm htag)]
        exact htask
    · obtain ⟨hmessage, -, hmay, hhome⟩ := hnew t hnow
      rw [tag_of_message hmessage]
      exact ⟨y, hself, (Task.message_congr hgoes.request i).trans hmessage, hmay,
        hhome.congr hgoes.request⟩
  · refine List.nodup_append.mpr ⟨h.nodup, hnodup, ?_⟩
    -- what is taken in now has not been taken in before
    rintro t hold u hnow rfl
    obtain ⟨hmessage, hmay, -, -⟩ := hnew t hnow
    obtain ⟨task, htask, -, hmay', -⟩ := h.taken t hold
    rw [tag_of_message hmessage, hi] at htask
    cases htask
    rw [hmay] at hmay'
    cases hmay'
  · intro u
    have haccount := h.account u
    have hstep := htally u
    have hpopped := count_flatMap_set Task.popped u hi (y := y)
    rw [htasks, List.count_append]
    simp only [tally] at hstep
    omega

/-- **Step lemma for the tasks.** -/
theorem Books.stepTask (h : n.Books total ledger) (hi : n.tasks[i]? = some task) (env : StepEnv) :
    Books total
      { (n.stepTask env i task).2 with
        tasks := (n.stepTask env i task).2.tasks.set i (n.stepTask env i task).1 }
      (ledger ++ n.taken env i task) := by
  have heffect := effect_stepTask env n i task
  have hplaced := h.placed task (List.mem_of_getElem? hi)
  have hsetup := heffect.sameSetup
  refine h.set hi ?_ ⟨hsetup.partitionId, hsetup.totalPartitions, hsetup.batchSize⟩
    (goesOn_stepTask env n i task) (placed_stepTask env n i hplaced)
    (tally_stepTask env n i task h.room) ?_ ?_
  · show (n.stepTask env i task).2.tasks.set i _ = _
    rw [heffect.tasks_eq]
  · rcases taken_cases env n i task with hnone | ⟨t, htaken, -⟩
    · rw [hnone]
      exact List.nodup_nil
    · rw [htaken]
      exact List.nodup_singleton t
  · intro t ht
    rcases taken_cases env n i task with hnone | ⟨u, htaken, hmessage, hmay, hmay', hhome⟩
    · rw [hnone] at ht
      cases ht
    · rw [htaken] at ht
      cases List.mem_singleton.mp ht
      exact ⟨hmessage, hmay, hmay', hhome _ _ hplaced⟩

/-- Nothing changes that the books are about. -/
theorem Books.congr (h : n.Books total ledger) (htasks : n'.tasks = n.tasks)
    (hbatcher : n'.batcher = n.batcher) (hstored : n'.stored = n.stored)
    (hsetup : SameSetup n n') : n'.Books total ledger where
  shared := hsetup.totalPartitions.trans h.shared
  room := hbatcher ▸ h.room
  placed := by
    rw [hsetup.partitionId, htasks]
    exact h.placed
  taken := by
    rw [hsetup.partitionId, htasks]
    exact h.taken
  nodup := h.nodup
  account := by
    rw [hbatcher, htasks, storedMessages, hstored]
    exact h.account

/-- A new task. -/
theorem Books.spawn (h : n.Books total ledger) (hplaced : x.Placed total n.broker.partitionId)
    (hpopped : x.popped = []) : (n.spawn x).Books total ledger where
  shared := h.shared
  room := h.room
  placed := by
    intro task htask
    rcases List.mem_append.mp htask with hold | hnew
    · exact h.placed task hold
    · rw [List.mem_singleton.mp hnew]
      exact hplaced
  taken := by
    intro t ht
    obtain ⟨task, htask, hrest⟩ := h.taken t ht
    refine ⟨task, ?_, hrest⟩
    have hlt : t.tag < n.tasks.length := (List.getElem?_eq_some_iff.mp htask).1
    exact (List.getElem?_append_left hlt).trans htask
  nodup := h.nodup
  account := by
    intro u
    have hflat : (n.spawn x).tasks.flatMap Task.popped = n.tasks.flatMap Task.popped := by
      simp [Node.spawn, hpopped]
    rw [hflat]
    exact h.account u

/-- What a step of the broker takes in. -/
def takes (n : Node) : NodeLabel → List Tagged
  | .task i env =>
      match n.tasks[i]? with
      | some task => n.taken env i task
      | none => []
  | _ => []

theorem Frame.setup (h : Frame n n') : SameSetup n n' where
  partitionId := h.partitionId
  totalPartitions := h.totalPartitions
  batchSize := by rw [h.batcher]

/-- What a step of the broker comes down to, with what it takes in. -/
inductive Move (n : Node) : List Tagged → Node → Prop
  | spawn (x : Task) (hplaced : x.Placed n.totalPartitions n.broker.partitionId)
      (hpopped : x.popped = []) : Move n [] (n.spawn x)
  | ensureTopic (topic : String) : Move n [] (n.ensureTopic topic)
  | task (i : Nat) (task : Task) (env : StepEnv) (hi : n.tasks[i]? = some task) :
      Move n (n.taken env i task)
        { (n.stepTask env i task).2 with
          tasks := (n.stepTask env i task).2.tasks.set i (n.stepTask env i task).1 }
  | consumer {n' : Node} (hframe : Frame n n') : Move n [] n'

theorem move_step (n : Node) (label : NodeLabel) : Move n (n.takes label) (n.step label) := by
  cases label with
  | publish req =>
      refine .spawn _ ?_ ?_
      · split
        · rename_i hother
          exact ⟨rfl, hother⟩
        · rename_i hown
          exact not_not.mp hown
      · split <;> rfl
  | forwardMessage req => exact .spawn _ (.inr trivial) rfl
  | consume req => exact .spawn _ trivial rfl
  | subscribe topic => exact .ensureTopic topic
  | task i env =>
      simp only [Node.step, takes]
      cases hi : n.tasks[i]? with
      | some task => exact .task i task env hi
      | none => exact .consumer (.refl n)
  | client i gone =>
      simp only [Node.step]
      split
      · exact .consumer (frame_stepClient n i _ gone)
      · exact .consumer (.refl n)
  | close i =>
      simp only [Node.step]
      split
      · exact .consumer (frame_closeStream n i _)
      · exact .consumer (.refl n)

theorem Books.move (h : n.Books total ledger) (hmove : Move n new n') :
    n'.Books total (ledger ++ new) := by
  cases hmove with
  | spawn x hplaced hpopped =>
      rw [List.append_nil]
      exact h.spawn (h.shared ▸ hplaced) hpopped
  | ensureTopic topic =>
      rw [List.append_nil]
      obtain ⟨hbatcher, hstored⟩ := books_ensureTopic n topic
      exact h.congr (tasks_ensureTopic n topic) hbatcher hstored (sameSetup_ensureTopic n topic)
  | task i task env hi => exact h.stepTask hi env
  | consumer hframe =>
      rw [List.append_nil]
      exact h.congr hframe.tasks hframe.batcher hframe.stored hframe.setup

/-- **Step lemma.**  Every step of the broker keeps the books. -/
theorem Books.step (h : n.Books total ledger) (label : NodeLabel) :
    (n.step label).Books total (ledger ++ n.takes label) := h.move (n.move_step label)

/-- What is left of a task. -/
theorem goesOn_lose (x : Task) : GoesOn x x.lose := by
  cases x with
  | flusher drain => exact ⟨rfl, fun _ => rfl, fun h => by cases h⟩
  | consume req phase => exact ⟨rfl, fun _ => rfl, fun h => by cases h⟩
  | publish req phase => cases phase <;> exact ⟨rfl, fun _ => rfl, fun _ => rfl⟩
  | forwardMessage req phase =>
      cases phase <;> exact ⟨rfl, fun _ => rfl, fun h => by cases h⟩

theorem placed_lose {partitionId : UInt32} (h : x.Placed total partitionId) :
    x.lose.Placed total partitionId := by
  cases x with
  | publish req phase => cases phase <;> trivial
  | forwardMessage req phase =>
      cases phase with
      | returned result => exact h
      | _ => exact .inr trivial
  | flusher drain => trivial
  | consume req phase => trivial

theorem popped_lose (x : Task) : x.lose.popped = [] := by
  cases x with
  | publish req phase => cases phase <;> rfl
  | forwardMessage req phase => cases phase <;> rfl
  | flusher drain => rfl
  | consume req phase => rfl

/-- A restart keeps the books: what was stored is still there. -/
theorem Books.restart (h : n.Books total ledger) : n.restart.Books total ledger where
  shared := h.shared
  room := Nat.succ_pos 99
  placed := by
    intro task htask
    obtain ⟨x, hx, rfl⟩ := List.mem_map.mp htask
    exact placed_lose (h.placed x hx)
  taken := by
    intro t ht
    obtain ⟨task, htask, hmessage, hmay, hhome⟩ := h.taken t ht
    have hgoes := goesOn_lose task
    refine ⟨task.lose, ?_, (Task.message_congr hgoes.request _).trans hmessage,
      hgoes.mayTake hmay, hhome.congr hgoes.request⟩
    show (n.tasks.map Task.lose)[t.tag]? = _
    rw [List.getElem?_map, htask]
    rfl
  nodup := h.nodup
  account := by
    intro u
    have hflat : n.restart.tasks.flatMap Task.popped = [] := by
      apply List.flatMap_eq_nil_iff.mpr
      intro task htask
      obtain ⟨x, -, rfl⟩ := List.mem_map.mp htask
      exact popped_lose x
    have haccount := h.account u
    show 0 + _ + n.storedMessages.count u ≤ _
    rw [hflat, List.count_nil]
    omega

theorem books_start (partitionId totalPartitions : UInt32) (recovered : String → Log) :
    (start partitionId totalPartitions recovered).Books totalPartitions [] where
  shared := rfl
  room := Nat.succ_pos 99
  placed := by
    intro task htask
    rw [List.mem_singleton.mp (show task ∈ [Task.flusher ⟨none, []⟩] from htask)]
    trivial
  taken := by rintro t ⟨⟩
  nodup := List.nodup_nil
  account _ := Nat.le_refl 0

/-! ### What was stored is found -/

/-- The logs and what was stored stay. -/
theorem Filed.congr (h : n.Filed) (hpartition : n'.broker.partitionId = n.broker.partitionId)
    (htopics : n'.topics = n.topics) (hstorage : n'.broker.storage = n.broker.storage)
    (hrecovered : n'.recovered = n.recovered) (hstored : n'.stored = n.stored) : n'.Filed := by
  have hlog : ∀ topic, n'.log topic = n.log topic := by
    intro topic
    rw [log, log, hstorage, hrecovered, Broker.partition, Broker.partition, hpartition]
  refine ⟨?_, ?_⟩
  · rw [hstorage, htopics, Broker.partition, hpartition]
    exact h.own
  · rw [hstored]
    intro entry hentry
    rw [hlog]
    exact h.found entry hentry

/-- A topic that is used for the first time gets the log of its file. -/
theorem Filed.ensureTopic (h : n.Filed) (topic : String) : (n.ensureTopic topic).Filed := by
  unfold Node.ensureTopic
  split
  · exact h
  · rename_i hmissing
    have hexists : ((n.broker.storage.createTopic topic).topics.lookup topic).isSome = true := by
      simp [LogStore.createTopic]
    have hlog? : ∀ topic' partition, ((n.broker.storage.createTopic topic).createPartition topic
        n.broker.partition (n.recovered topic)).log? topic' partition =
        if topic' = topic then
          if partition = n.broker.partition then some (n.recovered topic) else none
        else n.broker.storage.log? topic' partition := by
      intro topic' partition
      rw [LogStore.createPartition, LogStore.log?_setLog, hexists, LogStore.log?_createTopic]
      by_cases htopic : topic' = topic
      · simp [htopic]
      · simp [htopic]
    have hunused : n.broker.storage.log? topic n.broker.partition = none := by
      by_contra hused
      exact hmissing (h.own topic _ hused).2
    have hlog : ∀ topic', (((n.broker.storage.createTopic topic).createPartition topic
        n.broker.partition (n.recovered topic)).log? topic' n.broker.partition).getD
          (n.recovered topic') = n.log topic' := by
      intro topic'
      rw [hlog?, log]
      by_cases htopic : topic' = topic
      · rw [if_pos htopic, if_pos rfl, htopic, hunused]
        rfl
      · rw [if_neg htopic]
    refine ⟨fun topic' partition hsome => ?_, fun entry hentry => ?_⟩
    · rw [hlog?] at hsome
      by_cases htopic : topic' = topic
      · rw [if_pos htopic] at hsome
        by_cases hpartition : partition = n.broker.partition
        · exact ⟨hpartition, htopic ▸ Finset.mem_insert_self _ _⟩
        · rw [if_neg hpartition] at hsome
          exact absurd rfl hsome
      · rw [if_neg htopic] at hsome
        obtain ⟨hpartition, hlisted⟩ := h.own topic' partition hsome
        exact ⟨hpartition, Finset.mem_insert_of_mem hlisted⟩
    · obtain ⟨k, hk, hfound⟩ := h.found entry hentry
      refine ⟨k, hk, ?_⟩
      rw [← hlog] at hfound
      exact hfound

/-- What is stored goes to the end of its log. -/
theorem log?_of_store {t : Tagged} {offset : Int64} (hstore : n.store t = (some offset, n')) :
    ∃ log, n.broker.storage.log? t.req.topic n.broker.partition = some log ∧
      offset = Int64.ofNat log.length := by
  cases hlog : n.broker.storage.log? t.req.topic n.broker.partition with
  | none =>
      rw [store, Broker.store_of_missing hlog] at hstore
      cases (Prod.mk.inj hstore).1
  | some log =>
      refine ⟨log, rfl, ?_⟩
      have hoffset : (n.broker.store t.req).1 = some (Int64.ofNat log.length) := by
        simp only [Broker.store, LogStore.append, hlog, Log.append]
      unfold store at hstore
      split at hstore
      · rename_i offset' broker heq
        rw [heq] at hoffset
        cases (Prod.mk.inj hstore).1
        exact Option.some.inj hoffset
      · cases (Prod.mk.inj hstore).1

theorem Filed.store (h : n.Filed) {t : Tagged} {offset : Int64}
    (hstore : n.store t = (some offset, n')) : n'.Filed := by
  obtain ⟨log, hlog, hoffset⟩ := log?_of_store hstore
  have hlog? : ∀ topic, n'.log topic =
      if topic = t.req.topic then log ++ [utf8 t.req.payload] else n.log topic := by
    intro topic
    rw [store_eq_some hstore]
    show Option.getD ((n.broker.storage.append t.req.topic n.broker.partition
      (utf8 t.req.payload)).2.log? topic n.broker.partition) _ = _
    rw [LogStore.log?_append, hlog]
    by_cases htopic : topic = t.req.topic
    · rw [if_pos ⟨htopic, rfl⟩, if_pos htopic]
      rfl
    · rw [if_neg fun hand => htopic hand.1, if_neg htopic]
      rfl
  have hown : n.log t.req.topic = log := by
    rw [Node.log, hlog]
    rfl
  refine ⟨fun topic partition hsome => ?_, fun entry hentry => ?_⟩
  · rw [store_eq_some hstore] at hsome ⊢
    simp only [LogStore.log?_append] at hsome
    split at hsome
    · rename_i hsame
      rw [hsame.1, hsame.2]
      exact h.own _ _ (by rw [hlog]; exact Option.some_ne_none _)
    · exact h.own topic partition hsome
  · have hstored : n'.stored = n.stored ++ [(t, offset)] := by rw [store_eq_some hstore]
    rw [hstored] at hentry
    rcases List.mem_append.mp hentry with hold | hnew
    · obtain ⟨k, hk, hfound⟩ := h.found entry hold
      refine ⟨k, hk, ?_⟩
      rw [hlog?]
      by_cases htopic : entry.1.req.topic = t.req.topic
      · rw [htopic, hown] at hfound
        rw [if_pos htopic, List.getElem?_append_left (List.getElem?_eq_some_iff.mp hfound).1]
        exact hfound
      · rw [if_neg htopic]
        exact hfound
    · rw [List.mem_singleton.mp hnew]
      refine ⟨log.length, hoffset, ?_⟩
      rw [hlog?, if_pos rfl, List.getElem?_concat_length]

theorem Effect.filed {h h' : Hand} (heffect : Effect env n i task h h' n') (hfiled : n.Filed) :
    n'.Filed := by
  cases heffect with
  | ensureTopic hown => exact hfiled.ensureTopic _
  | addMessage hadd => exact hfiled.congr rfl rfl rfl rfl rfl
  | getReadyBatches => exact hfiled.congr rfl rfl rfl rfl rfl
  | pass processor hsub => exact hfiled.congr rfl rfl rfl rfl rfl
  | respond counter hid => exact hfiled.congr rfl rfl rfl rfl rfl
  | acquire hch hsub hsender =>
      have hframe := channelFrame_of_channeling hch
      exact hfiled.congr (hframe.partitionId _) rfl (hframe.storage _) rfl rfl
  | acquireFor hch =>
      have hframe := channelFrame_of_channeling hch
      exact hfiled.congr (hframe.partitionId _) rfl (hframe.storage _) rfl rfl
  | storeBatched hnext hstore => exact hfiled.store hstore
  | countBatched counter hnext hstore =>
      obtain ⟨-, rfl⟩ := store_eq_none hstore
      exact hfiled.congr rfl rfl rfl rfl rfl
  | storeDirect hstore => exact hfiled.store hstore
  | failDirect hstore =>
      obtain ⟨-, rfl⟩ := store_eq_none hstore
      exact hfiled
  | send => exact hfiled.congr rfl rfl rfl rfl rfl
  | subscribe => exact hfiled.congr rfl rfl rfl rfl rfl

theorem Filed.move (h : n.Filed) (hmove : Move n new n') : n'.Filed := by
  cases hmove with
  | spawn x hplaced hpopped => exact h.congr rfl rfl rfl rfl rfl
  | ensureTopic topic => exact h.ensureTopic topic
  | task i task env hi =>
      have hfiled := (effect_stepTask env n i task).filed h
      exact hfiled.congr rfl rfl rfl rfl rfl
  | consumer hframe =>
      exact h.congr hframe.partitionId hframe.topics hframe.storage hframe.recovered hframe.stored

/-- **Step lemma.**  Every step of the broker keeps the files. -/
theorem Filed.step (h : n.Filed) (label : NodeLabel) : (n.step label).Filed :=
  h.move (n.move_step label)

/-- A restart brings every log back from its file. -/
theorem Filed.restart (h : n.Filed) : n.restart.Filed where
  own := by
    intro topic partition hsome
    exact absurd rfl hsome
  found := by
    intro entry hentry
    exact h.found entry hentry

theorem filed_start (partitionId totalPartitions : UInt32) (recovered : String → Log) :
    (start partitionId totalPartitions recovered).Filed where
  own := by
    intro topic partition hsome
    exact absurd rfl hsome
  found := by rintro entry ⟨⟩

/-! ### Calls go on -/

/-- The partition stays, and all calls go on. -/
structure Continues (n n' : Node) : Prop where
  partitionId : n'.broker.partitionId = n.broker.partitionId
  tasks : ∀ (i : Nat) (x : Task), n.tasks[i]? = some x → ∃ y, n'.tasks[i]? = some y ∧ GoesOn x y

theorem Continues.refl (n : Node) : Continues n n := ⟨rfl, fun _ x hx => ⟨x, hx, .refl x⟩⟩

theorem Continues.trans {n'' : Node} (h : Continues n n') (h' : Continues n' n'') :
    Continues n n'' where
  partitionId := h'.partitionId.trans h.partitionId
  tasks i x hx := by
    obtain ⟨y, hy, hxy⟩ := h.tasks i x hx
    obtain ⟨z, hz, hyz⟩ := h'.tasks i y hy
    exact ⟨z, hz, hyz.request.trans hxy.request, hyz.mayTake ∘ hxy.mayTake,
      hyz.called ∘ hxy.called⟩

theorem continues_of_tasks_eq (hpartition : n'.broker.partitionId = n.broker.partitionId)
    (htasks : n'.tasks = n.tasks) : Continues n n' :=
  ⟨hpartition, fun _ x hx => ⟨x, htasks ▸ hx, .refl x⟩⟩

theorem continues_set (hi : n.tasks[i]? = some x) (htasks : n'.tasks = n.tasks.set i y)
    (hpartition : n'.broker.partitionId = n.broker.partitionId) (hgoes : GoesOn x y) :
    Continues n n' := by
  refine ⟨hpartition, fun j z hz => ?_⟩
  rw [htasks]
  by_cases hji : j = i
  · subst hji
    rw [hi] at hz
    cases hz
    exact ⟨y, List.getElem?_set_self (List.getElem?_eq_some_iff.mp hi).1, hgoes⟩
  · exact ⟨z, (List.getElem?_set_ne (Ne.symm hji)).trans hz, .refl z⟩

theorem continues_spawn (n : Node) (x : Task) : Continues n (n.spawn x) := by
  refine ⟨rfl, fun i y hy => ⟨y, ?_, .refl y⟩⟩
  exact (List.getElem?_append_left (List.getElem?_eq_some_iff.mp hy).1).trans hy

theorem continues_restart (n : Node) : Continues n n.restart := by
  refine ⟨rfl, fun i x hx => ⟨x.lose, ?_, goesOn_lose x⟩⟩
  show (n.tasks.map Task.lose)[i]? = _
  rw [List.getElem?_map, hx]
  rfl

theorem Move.continues (hmove : Move n new n') : Continues n n' := by
  cases hmove with
  | spawn x hplaced hpopped => exact continues_spawn n x
  | ensureTopic topic =>
      exact continues_of_tasks_eq (sameSetup_ensureTopic n topic).partitionId
        (tasks_ensureTopic n topic)
  | task i task env hi =>
      have heffect := effect_stepTask env n i task
      refine continues_set hi ?_ heffect.sameSetup.partitionId (goesOn_stepTask env n i task)
      show (n.stepTask env i task).2.tasks.set i _ = _
      rw [heffect.tasks_eq]
  | consumer hframe => exact continues_of_tasks_eq hframe.partitionId hframe.tasks

/-! ### Answers -/

/-- An answer that a step of a task gives by itself is to a message that is at home
here. -/
theorem responses_stepTask (env : StepEnv) (n : Node) (i : Nat) (task : Task) :
    (n.stepTask env i task).2.responses = n.responses ∨
      ∃ req phase r, task = .publish req phase ∧
        (n.stepTask env i task).2.responses = n.responses ++ [(⟨i, req⟩, r)] ∧
        ∀ total partitionId, task.Placed total partitionId → task.AtHome total partitionId := by
  cases task with
  | flusher drain =>
      simp only [stepTask]
      split
      · exact .inl rfl
      · exact .inl (aside_stepDrain _ _ _ _).responses
  | consume req phase => cases phase <;> exact .inl rfl
  | forwardMessage req phase =>
      cases phase with
      | checkPartition =>
          simp only [stepTask, stepForward]
          split <;> exact .inl rfl
      | ensureTopic => exact .inl (outputs_ensureTopic n req.topic).2
      | direct direct =>
          have haside := n.aside_stepDirect env.fresh ⟨i, req.message⟩ direct
          cases direct <;> first | exact .inl rfl | exact .inl haside.responses
      | returned result => exact .inl rfl
      | lost => exact .inl rfl
  | publish req phase =>
      cases phase with
      | ensureTopic => exact .inl (outputs_ensureTopic n req.topic).2
      | addMessage =>
          simp only [stepTask, stepPublish]
          split <;> exact .inl rfl
      | single direct =>
          have haside := n.aside_stepDirect env.fresh ⟨i, req⟩ direct
          cases direct with
          | sent delivery => exact .inr ⟨req, _, _, rfl, rfl, fun _ _ h => h⟩
          | failed => exact .inl rfl
          | _ => exact .inl haside.responses
      | processing drain =>
          simp only [stepTask, stepPublish]
          split
          · exact .inl rfl
          · exact .inl (aside_stepDrain _ _ _ _).responses
      | respond => exact .inr ⟨req, _, _, rfl, rfl, fun _ _ h => h⟩
      | _ => exact .inl rfl

/-- **What a broker answers by itself is to a message that is at home here.** -/
theorem Books.responses_move (h : n.Books total ledger) (hmove : Move n new n') {t : Tagged}
    {r : PublishResponse} (hr : (t, r) ∈ n'.responses) :
    (t, r) ∈ n.responses ∨ ∃ x, n.tasks[t.tag]? = some x ∧ x.request = some (.inl t.req) ∧
      partitionOf total t.req.key = n.broker.partitionId := by
  cases hmove with
  | spawn x hplaced hpopped => exact .inl hr
  | ensureTopic topic =>
      rw [(outputs_ensureTopic n topic).2] at hr
      exact .inl hr
  | task i task env hi =>
      have hr' : (t, r) ∈ (n.stepTask env i task).2.responses := hr
      rcases responses_stepTask env n i task with hsame | ⟨req, phase, r', rfl, hnew, hhome⟩
      · rw [hsame] at hr'
        exact .inl hr'
      · rw [hnew] at hr'
        rcases List.mem_append.mp hr' with hold | hlast
        · exact .inl hold
        · cases List.mem_singleton.mp hlast
          exact .inr ⟨_, hi, rfl, hhome _ _ (h.placed _ (List.mem_of_getElem? hi))⟩
  | consumer hframe =>
      rw [hframe.responses] at hr
      exact .inl hr

end Node

end Rafka
