/-
Rafka/Topics.lean

Topics are created when they are first used (`Broker::ensure_topic` in
`crates/broker/src/broker.rs`).

The broker has a table of its topics behind a lock, and the storage has another
one.  `ensure_topic` looks with a read guard whether the topic is there.  If it
is not, the guard is dropped, the write guard is awaited, and the table is looked
at once more, since somebody else may have been faster.  Only then is the topic
entered in the table and created in the storage, where it would replace one of
the same name, and the partition is created in it, with what its file holds.

Here every acquisition and release of a guard is a step, and so is each of the
three operations under the write guard.  A call that waits may be cancelled.  If
the recovery of the file panics, the guard is released, but the topic stays in
the table.

Main results: in no run is a topic created twice (`inv_always`), and a topic can be
relied on after `ensure_topic` has returned, in all runs, exactly if no file makes
the recovery panic (`usable_always`, `created_once_and_usable_iff`).  Alone, the
steps of a call do what the broker's `ensureTopic` does at once
(`matches_ensureAlone`).
-/
import Rafka.RwLock
import Rafka.Serve

namespace Rafka

/-! ### Calls -/

/-- What `ensure_topic` is called for. -/
inductive Caller
  | publish
  | subscribe (consumerId : String)
  | forwardMessage
deriving DecidableEq

/-- Where a call of `ensure_topic` is, or else its caller, as far as that one has
to do with the table. -/
inductive EnsurePhase
  /-- It waits for the read guard. -/
  | read
  /-- With the read guard, before the look into the table. -/
  | check
  /-- With the read guard, after it. -/
  | dropRead (found : Bool)
  /-- It waits for the write guard. -/
  | write
  /-- With the write guard, before the second look. -/
  | recheck
  | createTopic
  | createPartition
  | dropWrite
  /-- `ensure_topic` has returned; `subscribe` waits for the write guard. -/
  | returned
  /-- `subscribe` has the write guard. -/
  | subscribing
  | subscribed
  /-- The call has been cancelled, or it has panicked. -/
  | gone
deriving DecidableEq

/-- Where a call of `update_offset` is, which reads the table too. -/
inductive OffsetPhase
  | read
  | check
  | done
deriving DecidableEq

/-- A call that has to do with the table. -/
inductive TopicTask
  | ensure (caller : Caller) (topic : String) (phase : EnsurePhase)
  | updateOffset (phase : OffsetPhase)
deriving DecidableEq

/-- The guard that a call has. -/
def TopicTask.guard : TopicTask → Option Mode
  | .ensure _ _ .check | .ensure _ _ (.dropRead _) => some .read
  | .ensure _ _ .recheck | .ensure _ _ .createTopic | .ensure _ _ .createPartition
  | .ensure _ _ .dropWrite | .ensure _ _ .subscribing => some .write
  | .updateOffset .check => some .read
  | _ => none

/-- The topic for which `ensure_topic` has returned. -/
def TopicTask.ensured : TopicTask → Option String
  | .ensure _ topic .returned | .ensure _ topic .subscribing
  | .ensure _ topic .subscribed => some topic
  | _ => none

/-- The topic of a message that went through `ensure_topic`. -/
def TopicTask.admitted : TopicTask → Option String
  | .ensure .publish topic .returned | .ensure .forwardMessage topic .returned => some topic
  | _ => none

/-! ### The table and the storage -/

/-- The topics of a broker with their subscribers, its storage and the calls.
`created` records the calls of `create_topic`, and `appended` what the appends
for messages returned. -/
structure TopicState where
  partitionId : UInt32
  topics : HashMap String (Finset String)
  storage : Storage
  tasks : List TopicTask
  created : List String
  appended : List (String × Option Int64)

/-- What happens next. -/
inductive TopicLabel
  | ensureTopic (caller : Caller) (topic : String)
  | updateOffset
  /-- The next operation of call `i`; if it creates a partition, `wal` is its file. -/
  | task (i : Nat) (wal : Option WalLog)
  /-- The future of call `i` is dropped while it waits. -/
  | cancel (i : Nat)
  /-- Whoever has the message of call `i` appends it. -/
  | append (i : Nat) (message : Payload) (now nowEnforce : EpochTime)
  /-- Any other call of the storage. -/
  | storage (c : StorageCall)

namespace TopicState

/-- A broker without topics. -/
def start (policy : RetentionPolicy) (partitionId : UInt32) : TopicState where
  partitionId := partitionId
  topics := ∅
  storage := .withRetentionPolicy policy
  tasks := []
  created := []
  appended := []

/-- `self.partition_id as i32`. -/
def partition (s : TopicState) : Int32 := s.partitionId.toInt32

/-- A guard of this mode is free. -/
def admits (s : TopicState) (mode : Mode) : Bool := RwLock.admits TopicTask.guard s.tasks mode

/-- The next operation of `ensure_topic`, or of `subscribe` after it. -/
def stepEnsure (s : TopicState) (wal : Option WalLog) (caller : Caller) (topic : String) :
    EnsurePhase → EnsurePhase × TopicState
  | .read => (if s.admits .read then .check else .read, s)
  | .check => (.dropRead (topic ∈ s.topics), s)
  | .dropRead found => (if found then .returned else .write, s)
  | .write => (if s.admits .write then .recheck else .write, s)
  | .recheck =>
      if topic ∈ s.topics then (.dropWrite, s)
      else (.createTopic, { s with topics := s.topics.insert topic ∅ })
  | .createTopic =>
      (.createPartition,
        { s with
          storage := s.storage.step (.createTopic topic)
          created := s.created ++ [topic] })
  | .createPartition =>
      match Storage.createPartition topic s.partition wal .ideal s.storage with
      | .ok (_, storage) => (.dropWrite, { s with storage := storage })
      | .error _ => (.gone, s)
  | .dropWrite => (.returned, s)
  | .returned =>
      match caller with
      | .subscribe _ => (if s.admits .write then .subscribing else .returned, s)
      | .publish | .forwardMessage => (.returned, s)
  | .subscribing =>
      match caller with
      | .subscribe consumerId =>
          (.subscribed,
            { s with topics := HashMap.modify topic (fun ids => insert consumerId ids) s.topics })
      | .publish | .forwardMessage => (.subscribed, s)
  | .subscribed => (.subscribed, s)
  | .gone => (.gone, s)

/-- The next operation of `update_offset` on the lock. -/
def stepOffset (s : TopicState) : OffsetPhase → OffsetPhase
  | .read => if s.admits .read then .check else .read
  | .check => .done
  | .done => .done

/-- The next operation of a call. -/
def stepTask (s : TopicState) (wal : Option WalLog) : TopicTask → TopicTask × TopicState
  | .ensure caller topic phase =>
      let (phase, s) := s.stepEnsure wal caller topic phase
      (.ensure caller topic phase, s)
  | .updateOffset phase => (.updateOffset (s.stepOffset phase), s)

/-- A call is cancelled where it waits for a guard. -/
def cancelTask : TopicTask → TopicTask
  | .ensure caller topic .read | .ensure caller topic .write => .ensure caller topic .gone
  | .updateOffset _ => .updateOffset .done
  | task => task

/-- A message whose topic has been ensured is appended. -/
def appendFor (s : TopicState) (task : TopicTask) (message : Payload)
    (now nowEnforce : EpochTime) : TopicState :=
  match task.admitted with
  | some topic =>
      match Storage.append topic s.partition message now nowEnforce .ideal s.storage with
      | .ok (result, storage) =>
          { s with storage := storage, appended := s.appended ++ [(topic, result)] }
      | .error _ => s
  | none => s

/-- One step. -/
def step (s : TopicState) : TopicLabel → TopicState
  | .ensureTopic caller topic => { s with tasks := s.tasks ++ [.ensure caller topic .read] }
  | .updateOffset => { s with tasks := s.tasks ++ [.updateOffset .read] }
  | .task i wal =>
      match s.tasks[i]? with
      | some task =>
          let (task, s) := s.stepTask wal task
          { s with tasks := s.tasks.set i task }
      | none => s
  | .cancel i =>
      match s.tasks[i]? with
      | some task => { s with tasks := s.tasks.set i (cancelTask task) }
      | none => s
  | .append i message now nowEnforce =>
      match s.tasks[i]? with
      | some task => s.appendFor task message now nowEnforce
      | none => s
  | .storage c => { s with storage := s.storage.step (.call c) }

/-! ### What is to hold -/

/-- No topic is created twice in the storage. -/
def CreatedOnce (s : TopicState) : Prop := ∀ topic, s.created.count topic ≤ 1

/-- Where `ensure_topic` has returned, the storage has the topic with the partition of
this broker, and no append for a message has returned `None`. -/
structure Usable (s : TopicState) : Prop where
  ensured : ∀ task ∈ s.tasks, ∀ topic, task.ensured = some topic →
    (s.storage.queue? topic s.partition).isSome = true
  appended : ∀ entry ∈ s.appended, entry.2 ≠ none

/-- If the step creates a partition, its file is one that the topic may have. -/
def Reads (files : String → Set (Option WalLog)) (s : TopicState) : TopicLabel → Prop
  | .task i wal => ∀ caller topic, s.tasks[i]? = some (.ensure caller topic .createPartition) →
      wal ∈ files topic
  | _ => True

/-! ### Created once -/

/-- What holds of a call that is about to create something. -/
def Expects (s : TopicState) : TopicTask → Prop
  | .ensure _ topic .createTopic => topic ∈ s.topics ∧ topic ∉ s.created
  | .ensure _ topic .createPartition => topic ∈ s.created
  | _ => True

/-- The invariant: a call with the write guard is alone, what was created is what
the storage has, once each, and it is in the table. -/
structure Inv (s : TopicState) : Prop where
  exclusive : RwLock.Exclusive TopicTask.guard s.tasks
  exact : s.storage.Exact
  nodup : s.created.Nodup
  stored : ∀ topic, (s.storage.topics.lookup topic).isSome = true ↔ topic ∈ s.created
  listed : ∀ topic ∈ s.created, topic ∈ s.topics
  expects : ∀ task ∈ s.tasks, s.Expects task

variable {s s' : TopicState} {i : Nat} {x y : TopicTask}

theorem expects_of_guard_none (h : x.guard = none) : s.Expects x := by
  rcases x with ⟨caller, topic, phase⟩ | phase
  · cases phase <;> trivial
  · trivial

/-- More topics in the table do no harm. -/
theorem Expects.mono (h : s.Expects x) (htopics : ∀ topic ∈ s.topics, topic ∈ s'.topics)
    (hcreated : s'.created = s.created) : s'.Expects x := by
  rcases x with ⟨caller, topic, phase⟩ | phase
  · cases phase with
    | createTopic => exact ⟨htopics topic h.1, hcreated ▸ h.2⟩
    | createPartition =>
        show topic ∈ s'.created
        rw [hcreated]
        exact h
    | _ => trivial
  · trivial

theorem Inv.createdOnce (h : s.Inv) : s.CreatedOnce :=
  fun _ => List.nodup_iff_count_le_one.mp h.nodup _

theorem inv_start (policy : RetentionPolicy) (partitionId : UInt32) :
    (start policy partitionId).Inv where
  exclusive := RwLock.exclusive_nil
  exact := by rintro topic partitionId q ⟨⟩
  nodup := List.nodup_nil
  stored := by simp [start, Storage.withRetentionPolicy]
  listed := by simp [start]
  expects := by simp [start]

/-- A new call. -/
theorem Inv.spawn (h : s.Inv) (hx : x.guard = none) :
    Inv { s with tasks := s.tasks ++ [x] } where
  exclusive := h.exclusive.concat hx
  exact := h.exact
  nodup := h.nodup
  stored := h.stored
  listed := h.listed
  expects := by
    intro task htask
    rcases List.mem_append.mp htask with hold | hnew
    · exact h.expects task hold
    · rw [List.mem_singleton.mp hnew]
      exact expects_of_guard_none hx

/-- The storage changes, but not what it has. -/
theorem Inv.storage (h : s.Inv) {storage : Storage} (hexact : storage.Exact)
    (hkeys : s.storage.SameKeys storage) (appended : List (String × Option Int64)) :
    Inv { s with storage := storage, appended := appended } where
  exclusive := h.exclusive
  exact := hexact
  nodup := h.nodup
  stored topic := by
    rw [hkeys.topics]
    exact h.stored topic
  listed := h.listed
  expects := h.expects

/-- A call goes on, and nothing is created. -/
theorem Inv.move (h : s.Inv) (hi : s.tasks[i]? = some x)
    (hlaw : RwLock.Lawful TopicTask.guard s.tasks x y)
    {topics : HashMap String (Finset String)} (htopics : ∀ topic ∈ s.topics, topic ∈ topics)
    (hy : Expects { s with topics := topics } y) :
    Inv { s with topics := topics, tasks := s.tasks.set i y } where
  exclusive := h.exclusive.set hi hlaw
  exact := h.exact
  nodup := h.nodup
  stored := h.stored
  listed topic ht := htopics topic (h.listed topic ht)
  expects := by
    intro task htask
    rcases List.mem_or_eq_of_mem_set htask with hold | rfl
    · exact (h.expects task hold).mono htopics rfl
    · exact hy.mono (fun _ ht => ht) rfl

/-- The topic is created in the storage. -/
theorem Inv.createTopic (h : s.Inv) {caller : Caller} {topic : String}
    (hi : s.tasks[i]? = some (.ensure caller topic .createTopic)) :
    Inv { s with
      storage := s.storage.step (.createTopic topic)
      created := s.created ++ [topic]
      tasks := s.tasks.set i (.ensure caller topic .createPartition) } := by
  obtain ⟨hlisted, hfresh⟩ := h.expects _ (List.mem_of_getElem? hi)
  constructor
  · exact h.exclusive.set hi (.inr (.inl rfl))
  · exact h.exact.step _
  · exact h.nodup.append (List.nodup_singleton topic) (List.disjoint_singleton.mpr hfresh)
  · intro topic'
    show ((s.storage.topics.insert topic ∅).lookup topic').isSome = true ↔ _
    rw [HashMap.lookup_insert_eq, List.mem_append, List.mem_singleton, ← h.stored]
    by_cases hsame : topic' = topic
    · simp [hsame]
    · simp [hsame]
  · intro topic' htopic'
    rcases List.mem_append.mp htopic' with hold | hnew
    · exact h.listed topic' hold
    · rw [List.mem_singleton.mp hnew]
      exact hlisted
  · intro task htask
    obtain ⟨j, hj⟩ := List.mem_iff_getElem?.mp htask
    rcases getElem?_set_cases hj with ⟨-, rfl⟩ | ⟨hne, hold⟩
    · exact List.mem_append_right _ (List.mem_singleton_self topic)
    · -- the others have no guard, so they are not about to create anything
      exact expects_of_guard_none (h.exclusive.alone hi rfl hold hne)

/-- What comes of creating the partition, where the topic exists. -/
theorem createPartition_cases (h : s.Inv) {caller : Caller} {topic : String}
    (hi : s.tasks[i]? = some (.ensure caller topic .createPartition)) (wal : Option WalLog) :
    (PartitionQueue.new s.storage.retentionPolicy wal = none ∧
      s.stepEnsure wal caller topic .createPartition = (.gone, s)) ∨
    ∃ q, PartitionQueue.new s.storage.retentionPolicy wal = some q ∧
      s.stepEnsure wal caller topic .createPartition =
        (.dropWrite, { s with storage := s.storage.setQueue topic s.partition q }) := by
  have hstored := (h.stored topic).mpr (h.expects _ (List.mem_of_getElem? hi))
  obtain ⟨partitions, hlookup⟩ := Option.isSome_iff_exists.mp hstored
  cases hnew : PartitionQueue.new s.storage.retentionPolicy wal with
  | none =>
      refine .inl ⟨rfl, ?_⟩
      simp only [stepEnsure, Storage.createPartition_ideal, hlookup, hnew]
  | some q =>
      refine .inr ⟨q, rfl, ?_⟩
      simp only [stepEnsure, Storage.createPartition_ideal, hlookup, hnew]

/-- The partition is created in the storage. -/
theorem Inv.createPartition (h : s.Inv) {caller : Caller} {topic : String} {q : PartitionQueue}
    (hi : s.tasks[i]? = some (.ensure caller topic .createPartition)) (hq : q.Exact) :
    Inv { s with
      storage := s.storage.setQueue topic s.partition q
      tasks := s.tasks.set i (.ensure caller topic .dropWrite) } := by
  have hmoved : Inv { s with tasks := s.tasks.set i (.ensure caller topic .dropWrite) } :=
    h.move (y := .ensure caller topic .dropWrite) hi (.inr (.inl rfl)) (fun _ ht => ht) trivial
  refine ⟨hmoved.exclusive, h.exact.setQueue hq, h.nodup, ?_, h.listed, hmoved.expects⟩
  intro topic'
  rw [← h.stored, Storage.setQueue, HashMap.lookup_modify]
  split
  · rw [Option.isSome_map]
  · rfl

/-- **Step lemma** for `ensure_topic`. -/
theorem Inv.stepEnsure (h : s.Inv) {caller : Caller} {topic : String} {phase : EnsurePhase}
    (hi : s.tasks[i]? = some (.ensure caller topic phase)) (wal : Option WalLog) :
    Inv { (s.stepEnsure wal caller topic phase).2 with
      tasks := (s.stepEnsure wal caller topic phase).2.tasks.set i
        (.ensure caller topic (s.stepEnsure wal caller topic phase).1) } := by
  -- a step that changes nothing but the call itself
  have hmove : ∀ phase', RwLock.Lawful TopicTask.guard s.tasks (.ensure caller topic phase)
      (.ensure caller topic phase') → s.Expects (.ensure caller topic phase') →
      Inv { s with tasks := s.tasks.set i (.ensure caller topic phase') } :=
    fun phase' hlaw hexpects => h.move hi hlaw (fun _ ht => ht) hexpects
  -- a guard that is free is taken, or the call goes on waiting
  have hacquire : ∀ mode phase', (TopicTask.ensure caller topic phase').guard = some mode →
      (TopicTask.ensure caller topic phase).guard = none →
      s.Expects (.ensure caller topic phase') →
      Inv { s with
        tasks := s.tasks.set i
          (.ensure caller topic (if s.admits mode then phase' else phase)) } := by
    intro mode phase' hmode hnone hexpects
    split
    · rename_i hfree
      exact hmove phase' (.inr (.inr ⟨mode, hmode, hfree⟩)) hexpects
    · exact hmove phase (.inr (.inl rfl)) (expects_of_guard_none hnone)
  cases phase with
  | read => exact hacquire .read .check rfl rfl trivial
  | check => exact hmove _ (.inr (.inl rfl)) trivial
  | dropRead found =>
      cases found with
      | true => exact hmove .returned (.inl rfl) trivial
      | false => exact hmove .write (.inl rfl) trivial
  | write => exact hacquire .write .recheck rfl rfl trivial
  | recheck =>
      by_cases hfound : topic ∈ s.topics
      · simp only [TopicState.stepEnsure, if_pos hfound]
        exact hmove .dropWrite (.inr (.inl rfl)) trivial
      · simp only [TopicState.stepEnsure, if_neg hfound]
        refine h.move (y := .ensure caller topic .createTopic) hi (.inr (.inl rfl))
          (fun topic' ht => ?_) ⟨?_, ?_⟩
        · exact Finmap.mem_insert.mpr (.inr ht)
        · exact Finmap.mem_insert.mpr (.inl rfl)
        · exact fun hcreated => hfound (h.listed topic hcreated)
  | createTopic => exact h.createTopic hi
  | createPartition =>
      rcases createPartition_cases h hi wal with ⟨-, hstep⟩ | ⟨q, hnew, hstep⟩
      · rw [hstep]
        exact hmove .gone (.inl rfl) trivial
      · rw [hstep]
        exact h.createPartition hi (PartitionQueue.size_of_new hnew)
  | dropWrite => exact hmove .returned (.inl rfl) trivial
  | returned =>
      cases caller with
      | subscribe consumerId => exact hacquire .write .subscribing rfl rfl trivial
      | publish => exact hmove .returned (.inl rfl) trivial
      | forwardMessage => exact hmove .returned (.inl rfl) trivial
  | subscribing =>
      cases caller with
      | subscribe consumerId =>
          refine h.move hi (.inl rfl) (fun topic' ht => ?_) trivial
          exact HashMap.mem_modify.mpr ht
      | publish => exact hmove .subscribed (.inl rfl) trivial
      | forwardMessage => exact hmove .subscribed (.inl rfl) trivial
  | subscribed => exact hmove .subscribed (.inl rfl) trivial
  | gone => exact hmove .gone (.inl rfl) trivial

/-- What an append for a message does. -/
theorem appendFor_cases (s : TopicState) (task : TopicTask) (message : Payload)
    (now nowEnforce : EpochTime) :
    s.appendFor task message now nowEnforce = s ∨
    ∃ topic result, task.admitted = some topic ∧
      s.appendFor task message now nowEnforce =
        { s with
          storage := s.storage.step (.call (.append topic s.partition message now nowEnforce))
          appended := s.appended ++ [(topic, result)] } ∧
      (result = none → s.storage.queue? topic s.partition = none) := by
  unfold appendFor
  cases hadmitted : task.admitted with
  | none => exact .inl rfl
  | some topic =>
      dsimp only
      cases hrun : Storage.append topic s.partition message now nowEnforce .ideal s.storage with
      | error e => exact .inl rfl
      | ok outcome =>
          obtain ⟨result, storage⟩ := outcome
          have hstep : s.storage.step
              (.call (.append topic s.partition message now nowEnforce)) = storage := by
            simp only [Storage.step, StorageOp.exec, StorageCall.exec, LockM.bind_run, hrun]
            rfl
          refine .inr ⟨topic, result, rfl, by rw [hstep], ?_⟩
          rintro rfl
          -- an append that finds a queue returns an offset, or not at all
          rw [Storage.append_ideal] at hrun
          cases hq : s.storage.queue? topic s.partition with
          | none => rfl
          | some q =>
              simp only [hq] at hrun
              cases happend : q.append message s.partition now nowEnforce with
              | none => simp [happend] at hrun
              | some offset => simp [happend] at hrun

/-- **Step lemma.**  Whatever happens, the invariant is kept. -/
theorem Inv.step (h : s.Inv) (label : TopicLabel) : (s.step label).Inv := by
  cases label with
  | ensureTopic caller topic => exact h.spawn rfl
  | updateOffset => exact h.spawn rfl
  | task i wal =>
      simp only [TopicState.step]
      split
      · rename_i task hi
        rcases task with ⟨caller, topic, phase⟩ | phase
        · exact h.stepEnsure hi wal
        · refine h.move hi ?_ (fun _ ht => ht) trivial
          cases phase with
          | read =>
              show RwLock.Lawful _ _ _
                (TopicTask.updateOffset (if s.admits .read then OffsetPhase.check else .read))
              split
              · rename_i hfree
                exact .inr (.inr ⟨.read, rfl, hfree⟩)
              · exact .inl rfl
          | check => exact .inl rfl
          | done => exact .inl rfl
      · exact h
  | cancel i =>
      simp only [TopicState.step]
      split
      · rename_i task hi
        obtain ⟨hlaw, hexpects⟩ : RwLock.Lawful TopicTask.guard s.tasks task (cancelTask task) ∧
            s.Expects (cancelTask task) := by
          have hsame := h.expects task (List.mem_of_getElem? hi)
          rcases task with ⟨caller, topic, phase⟩ | phase
          · cases phase with
            | read => exact ⟨.inl rfl, trivial⟩
            | write => exact ⟨.inl rfl, trivial⟩
            | _ => exact ⟨.inr (.inl rfl), hsame⟩
          · exact ⟨.inl rfl, trivial⟩
        exact h.move hi hlaw (fun _ ht => ht) hexpects
      · exact h
  | append i message now nowEnforce =>
      simp only [TopicState.step]
      split
      · rename_i task hi
        rcases appendFor_cases s task message now nowEnforce with
          hsame | ⟨topic, result, -, hstep, -⟩
        · rw [hsame]
          exact h
        · rw [hstep]
          exact h.storage (h.exact.step _) (Storage.sameKeys_call h.exact _) _
      · exact h
  | storage c => exact h.storage (h.exact.step _) (Storage.sameKeys_call h.exact c) s.appended

/-- **Run lemma.**  In no run is a topic created twice. -/
theorem inv_always (policy : RetentionPolicy) (partitionId : UInt32) (labels : List TopicLabel) :
    Always step Inv (start policy partitionId) labels :=
  .of_along (inv_start policy partitionId) (.of_forall fun _ _ => trivial)
    fun _ label h (_ : True) => h.step label

/-! ### Usable once ensured -/

end TopicState

/-- The topic that the call is creating. -/
def TopicTask.creating : TopicTask → Option String
  | .ensure _ topic .createTopic | .ensure _ topic .createPartition => some topic
  | _ => none

/-- The topic that the call has found, or has created. -/
def TopicTask.passed : TopicTask → Option String
  | .ensure _ topic (.dropRead true) | .ensure _ topic .dropWrite
  | .ensure _ topic .returned | .ensure _ topic .subscribing
  | .ensure _ topic .subscribed => some topic
  | _ => none

theorem TopicTask.passed_of_ensured {x : TopicTask} {topic : String}
    (h : x.ensured = some topic) : x.passed = some topic := by
  rcases x with ⟨caller, topic', phase⟩ | phase
  · cases phase <;> first | exact h | cases h
  · cases h

theorem TopicTask.ensured_of_admitted {x : TopicTask} {topic : String}
    (h : x.admitted = some topic) : x.ensured = some topic := by
  rcases x with ⟨caller, topic', phase⟩ | phase
  · cases caller <;> cases phase <;> first | exact h | cases h
  · cases h

theorem TopicTask.guard_of_creating {x : TopicTask} {topic : String}
    (h : x.creating = some topic) : x.guard = some .write := by
  rcases x with ⟨caller, topic', phase⟩ | phase
  · cases phase <;> first | rfl | cases h
  · cases h

namespace TopicState

variable {s s' : TopicState} {i : Nat} {x y : TopicTask}

/-- The storage has the topic with the partition of this broker. -/
def Has (s : TopicState) (topic : String) : Prop :=
  (s.storage.queue? topic s.partition).isSome = true

/-- What is in the table is in the storage, unless somebody is about to create it,
and what a call has passed is there. -/
structure Ready (s : TopicState) : Prop where
  listed : ∀ topic ∈ s.topics, s.Has topic ∨ ∃ task ∈ s.tasks, task.creating = some topic
  passed : ∀ task ∈ s.tasks, ∀ topic, task.passed = some topic → s.Has topic
  appended : ∀ entry ∈ s.appended, entry.2 ≠ none

theorem Ready.usable (h : s.Ready) : s.Usable where
  ensured task htask topic htopic :=
    h.passed task htask topic (TopicTask.passed_of_ensured htopic)
  appended := h.appended

/-- What a call with a guard finds in the table has been created. -/
theorem Ready.has (h : s.Ready) (hinv : s.Inv) (hi : s.tasks[i]? = some x)
    (hguard : x.guard ≠ none) (hx : x.creating = none) {topic : String}
    (ht : topic ∈ s.topics) : s.Has topic := by
  rcases h.listed topic ht with hhas | ⟨task, htask, hcreating⟩
  · exact hhas
  · -- whoever is creating it would have to be alone with its guard
    obtain ⟨j, hj⟩ := List.mem_iff_getElem?.mp htask
    have hwriter := TopicTask.guard_of_creating hcreating
    have hsame := hinv.exclusive j i task x hj hi hwriter hguard
    subst hsame
    rw [hi] at hj
    cases hj
    rw [hx] at hcreating
    cases hcreating

/-- A call goes on. -/
theorem Ready.set (h : s.Ready) (hi : s.tasks[i]? = some x)
    (htasks : s'.tasks = s.tasks.set i y) (happended : s'.appended = s.appended)
    (hmono : ∀ topic, s.Has topic → s'.Has topic)
    (hx : ∀ topic, x.creating = some topic → s'.Has topic ∨ y.creating = some topic)
    (htopics : ∀ topic ∈ s'.topics, topic ∈ s.topics ∨ y.creating = some topic)
    (hy : ∀ topic, y.passed = some topic → s'.Has topic) : s'.Ready := by
  have hlt : i < s.tasks.length := (List.getElem?_eq_some_iff.mp hi).1
  have hown : y ∈ s'.tasks := by
    rw [htasks]
    exact List.mem_of_getElem? (List.getElem?_set_self hlt)
  constructor
  · intro topic ht
    rcases htopics topic ht with hold | hcreating
    · rcases h.listed topic hold with hhas | ⟨task, htask, hcreating⟩
      · exact .inl (hmono topic hhas)
      · obtain ⟨j, hj⟩ := List.mem_iff_getElem?.mp htask
        by_cases hji : j = i
        · subst hji
          rw [hi] at hj
          cases hj
          exact (hx topic hcreating).imp_right fun hnew => ⟨y, hown, hnew⟩
        · refine .inr ⟨task, ?_, hcreating⟩
          rw [htasks]
          rw [← List.getElem?_set_ne (Ne.symm hji)] at hj
          exact List.mem_of_getElem? hj
    · exact .inr ⟨y, hown, hcreating⟩
  · intro task htask topic hpassed
    rw [htasks] at htask
    rcases List.mem_or_eq_of_mem_set htask with hold | rfl
    · exact hmono topic (h.passed task hold topic hpassed)
    · exact hy topic hpassed
  · rw [happended]
    exact h.appended

/-- A call goes on, and nothing is created. -/
theorem Ready.move (h : s.Ready) (hi : s.tasks[i]? = some x) (hx : x.creating = none)
    {topics : HashMap String (Finset String)}
    (htopics : ∀ topic ∈ topics, topic ∈ s.topics ∨ y.creating = some topic)
    (hy : ∀ topic, y.passed = some topic → s.Has topic) :
    Ready { s with topics := topics, tasks := s.tasks.set i y } := by
  refine h.set hi rfl rfl (fun _ ht => ht) (fun topic hcreating => ?_) htopics hy
  rw [hx] at hcreating
  cases hcreating

/-- The topic is new in the storage, so nothing is replaced. -/
theorem Ready.createTopic (h : s.Ready) (hinv : s.Inv) {caller : Caller} {topic : String}
    (hi : s.tasks[i]? = some (.ensure caller topic .createTopic)) :
    Ready { s with
      storage := s.storage.step (.createTopic topic)
      created := s.created ++ [topic]
      tasks := s.tasks.set i (.ensure caller topic .createPartition) } := by
  obtain ⟨-, hfresh⟩ := hinv.expects _ (List.mem_of_getElem? hi)
  refine h.set hi rfl rfl ?_ (fun _ hcreating => .inr hcreating) (fun _ ht => .inl ht) ?_
  · intro topic' hhas
    have hne : topic' ≠ topic := by
      rintro rfl
      obtain ⟨q, hq⟩ := Option.isSome_iff_exists.mp hhas
      obtain ⟨partitions, hlookup, -⟩ := Option.bind_eq_some_iff.mp hq
      exact hfresh ((hinv.stored topic').mp (by rw [hlookup]; rfl))
    show (((s.storage.topics.insert topic ∅).lookup topic').bind _).isSome = true
    rw [HashMap.lookup_insert_eq, if_neg hne]
    exact hhas
  · rintro topic' ⟨⟩

/-- The partition is there. -/
theorem Ready.createPartition (h : s.Ready) (hinv : s.Inv) {caller : Caller} {topic : String}
    (q : PartitionQueue) (hi : s.tasks[i]? = some (.ensure caller topic .createPartition)) :
    Ready { s with
      storage := s.storage.setQueue topic s.partition q
      tasks := s.tasks.set i (.ensure caller topic .dropWrite) } := by
  have hstored := (hinv.stored topic).mpr (hinv.expects _ (List.mem_of_getElem? hi))
  have hhas : ((s.storage.setQueue topic s.partition q).queue? topic s.partition).isSome =
      true := by
    rw [Storage.queue?_setQueue, if_pos ⟨rfl, rfl, hstored⟩]
    rfl
  refine h.set hi rfl rfl ?_ ?_ (fun _ ht => .inl ht) ?_
  · intro topic' hold
    show ((s.storage.setQueue topic s.partition q).queue? topic' s.partition).isSome = true
    rw [Storage.queue?_setQueue]
    split
    · rfl
    · exact hold
  · rintro topic' ⟨⟩
    exact .inl hhas
  · rintro topic' ⟨⟩
    exact hhas

/-- **Step lemma** for `ensure_topic`, where the file can be recovered. -/
theorem Ready.stepEnsure (h : s.Ready) (hinv : s.Inv) {caller : Caller} {topic : String}
    {phase : EnsurePhase} (hi : s.tasks[i]? = some (.ensure caller topic phase))
    (wal : Option WalLog)
    (hwal : phase = .createPartition → PartitionQueue.Recoverable wal) :
    Ready { (s.stepEnsure wal caller topic phase).2 with
      tasks := (s.stepEnsure wal caller topic phase).2.tasks.set i
        (.ensure caller topic (s.stepEnsure wal caller topic phase).1) } := by
  -- a step that changes nothing but the call itself
  have hmove : (TopicTask.ensure caller topic phase).creating = none → ∀ phase',
      (∀ topic', (TopicTask.ensure caller topic phase').passed = some topic' → s.Has topic') →
      Ready { s with tasks := s.tasks.set i (.ensure caller topic phase') } :=
    fun hx phase' hy => h.move hi hx (fun _ ht => .inl ht) hy
  -- whoever has passed stays so
  have hkept : ∀ topic', (TopicTask.ensure caller topic phase).passed = some topic' →
      s.Has topic' := h.passed _ (List.mem_of_getElem? hi)
  cases phase with
  | read =>
      apply hmove rfl (if s.admits .read then .check else .read)
      intro topic'
      split <;> rintro ⟨⟩
  | check =>
      apply hmove rfl (.dropRead (topic ∈ s.topics))
      intro topic'
      by_cases hfound : topic ∈ s.topics
      · rw [decide_eq_true hfound]
        rintro ⟨⟩
        exact h.has hinv hi (by rintro ⟨⟩) rfl hfound
      · rw [decide_eq_false hfound]
        rintro ⟨⟩
  | dropRead found =>
      cases found with
      | true => exact hmove rfl .returned hkept
      | false => exact hmove rfl .write (by rintro topic' ⟨⟩)
  | write =>
      apply hmove rfl (if s.admits .write then .recheck else .write)
      intro topic'
      split <;> rintro ⟨⟩
  | recheck =>
      by_cases hfound : topic ∈ s.topics
      · simp only [TopicState.stepEnsure, if_pos hfound]
        apply hmove rfl .dropWrite
        rintro topic' ⟨⟩
        exact h.has hinv hi (by rintro ⟨⟩) rfl hfound
      · simp only [TopicState.stepEnsure, if_neg hfound]
        refine h.move hi rfl (fun topic' ht => ?_) (by rintro topic' ⟨⟩)
        rcases Finmap.mem_insert.mp ht with rfl | hold
        · exact .inr rfl
        · exact .inl hold
  | createTopic => exact h.createTopic hinv hi
  | createPartition =>
      rcases createPartition_cases hinv hi wal with ⟨hnone, -⟩ | ⟨q, -, hstep⟩
      · exact absurd hnone ((PartitionQueue.new_ne_none_iff _ wal).mpr (hwal rfl))
      · rw [hstep]
        exact h.createPartition hinv q hi
  | dropWrite => exact hmove rfl .returned hkept
  | returned =>
      cases caller with
      | subscribe consumerId =>
          apply hmove rfl (if s.admits .write then .subscribing else .returned)
          intro topic'
          split <;> exact hkept topic'
      | publish => exact hmove rfl .returned hkept
      | forwardMessage => exact hmove rfl .returned hkept
  | subscribing =>
      cases caller with
      | subscribe consumerId =>
          exact h.move hi rfl (fun _ ht => .inl (HashMap.mem_modify.mp ht)) hkept
      | publish => exact hmove rfl .subscribed hkept
      | forwardMessage => exact hmove rfl .subscribed hkept
  | subscribed => exact hmove rfl .subscribed hkept
  | gone => exact hmove rfl .gone hkept

/-- The storage changes, but not what it has. -/
theorem Ready.storage (h : s.Ready) {storage : Storage} (hkeys : s.storage.SameKeys storage)
    {appended : List (String × Option Int64)} (happended : ∀ entry ∈ appended, entry.2 ≠ none) :
    Ready { s with storage := storage, appended := appended } := by
  have hhas : ∀ topic, s.Has topic →
      Has { s with storage := storage, appended := appended } topic := by
    intro topic ht
    show (storage.queue? topic s.partition).isSome = true
    rw [hkeys.queues]
    exact ht
  refine ⟨fun topic ht => ?_, fun task htask topic hpassed => ?_, happended⟩
  · exact (h.listed topic ht).imp_left (hhas topic)
  · exact hhas topic (h.passed task htask topic hpassed)

/-- A new call. -/
theorem Ready.spawn (h : s.Ready) (hx : x.passed = none) :
    Ready { s with tasks := s.tasks ++ [x] } := by
  refine ⟨fun topic ht => ?_, fun task htask topic hpassed => ?_, h.appended⟩
  · rcases h.listed topic ht with hhas | ⟨task, htask, hcreating⟩
    · exact .inl hhas
    · exact .inr ⟨task, List.mem_append_left _ htask, hcreating⟩
  · rcases List.mem_append.mp htask with hold | hnew
    · exact h.passed task hold topic hpassed
    · rw [List.mem_singleton.mp hnew, hx] at hpassed
      cases hpassed

/-- **Step lemma.**  Where every file can be recovered, topics are usable once they
are ensured. -/
theorem Ready.step (h : s.Ready) (hinv : s.Inv) {files : String → Set (Option WalLog)}
    (hfiles : ∀ topic, ∀ wal ∈ files topic, PartitionQueue.Recoverable wal) {label : TopicLabel}
    (hreads : s.Reads files label) : (s.step label).Ready := by
  cases label with
  | ensureTopic caller topic => exact h.spawn rfl
  | updateOffset => exact h.spawn rfl
  | task i wal =>
      simp only [TopicState.step]
      split
      · rename_i task hi
        rcases task with ⟨caller, topic, phase⟩ | phase
        · apply h.stepEnsure hinv hi wal
          rintro rfl
          exact hfiles topic wal (hreads caller topic hi)
        · exact h.move hi rfl (fun _ ht => .inl ht) (by rintro topic ⟨⟩)
      · exact h
  | cancel i =>
      simp only [TopicState.step]
      split
      · rename_i task hi
        have hkept := h.passed task (List.mem_of_getElem? hi)
        have hset : (∀ topic, task.creating = some topic →
              (cancelTask task).creating = some topic) ∧
            ∀ topic, (cancelTask task).passed = some topic → task.passed = some topic := by
          rcases task with ⟨caller, topic, phase⟩ | phase
          · cases phase <;> exact ⟨fun _ ht => ht, fun _ ht => ht⟩
          · exact ⟨fun _ ht => ht, fun _ ht => ht⟩
        exact h.set hi rfl rfl (fun _ ht => ht) (fun topic ht => .inr (hset.1 topic ht))
          (fun _ ht => .inl ht) (fun topic ht => hkept topic (hset.2 topic ht))
      · exact h
  | append i message now nowEnforce =>
      simp only [TopicState.step]
      split
      · rename_i task hi
        rcases appendFor_cases s task message now nowEnforce with
          hsame | ⟨topic, result, hadmitted, hstep, hnone⟩
        · rw [hsame]
          exact h
        · rw [hstep]
          apply h.storage (Storage.sameKeys_call hinv.exact _)
          intro entry hentry
          rcases List.mem_append.mp hentry with hold | hnew
          · exact h.appended entry hold
          · -- the call has passed, so the queue is there
            rw [List.mem_singleton.mp hnew]
            intro hresult
            have hhas : s.Has topic := h.passed task (List.mem_of_getElem? hi) topic
              (TopicTask.passed_of_ensured (TopicTask.ensured_of_admitted hadmitted))
            rw [Has, hnone hresult] at hhas
            cases hhas
      · exact h
  | storage c => exact h.storage (Storage.sameKeys_call hinv.exact c) h.appended

theorem ready_start (policy : RetentionPolicy) (partitionId : UInt32) :
    (start policy partitionId).Ready where
  listed := by simp [start, Finmap.notMem_empty]
  passed := by simp [start]
  appended := by simp [start]

/-- **Run lemma.**  Where every file can be recovered, topics are usable once they
are ensured, in every run. -/
theorem usable_always (policy : RetentionPolicy) (partitionId : UInt32)
    {files : String → Set (Option WalLog)}
    (hfiles : ∀ topic, ∀ wal ∈ files topic, PartitionQueue.Recoverable wal)
    {labels : List TopicLabel}
    (hreads : Along step (Reads files) (start policy partitionId) labels) :
    Always step Usable (start policy partitionId) labels := by
  have hboth : Always step (fun s => s.Inv ∧ s.Ready) (start policy partitionId) labels :=
    .of_along ⟨inv_start policy partitionId, ready_start policy partitionId⟩ hreads
      fun s label h hlabel => ⟨h.1.step label, h.2.step h.1 hfiles hlabel⟩
  exact hboth.mono fun s h => h.2.usable

/-! ### A file that cannot be recovered -/

/-- A topic is ensured, with this file, and once more. -/
def ensureTwice (topic : String) (wal : Option WalLog) : List TopicLabel :=
  .ensureTopic .publish topic :: List.replicate 7 (.task 0 wal) ++
    .ensureTopic .publish topic :: List.replicate 3 (.task 1 wal)

/-- The recovery panics when the topic is already there. -/
theorem createPartition_panics (policy : RetentionPolicy) (topic : String) (partition : Int32)
    {wal : Option WalLog} (hwal : PartitionQueue.new policy wal = none) :
    Storage.createPartition topic partition wal .ideal
      ((Storage.withRetentionPolicy policy).step (.createTopic topic)) = .error .panicked := by
  have hlookup : ((Storage.withRetentionPolicy policy).step (.createTopic topic)).topics.lookup
      topic = some ∅ := Finmap.lookup_insert _
  have hpolicy : ((Storage.withRetentionPolicy policy).step
      (.createTopic topic)).retentionPolicy = policy := rfl
  rw [Storage.createPartition_ideal, hlookup]
  simp only [hpolicy, hwal]

/-- The second call returns, though the first one has left no partition. -/
theorem run_ensureTwice (policy : RetentionPolicy) (partitionId : UInt32) (topic : String)
    {wal : Option WalLog} (hwal : PartitionQueue.new policy wal = none) :
    ((ensureTwice topic wal).foldl step (start policy partitionId)).tasks =
      [.ensure .publish topic .gone, .ensure .publish topic .returned] ∧
    ((ensureTwice topic wal).foldl step (start policy partitionId)).storage =
      (Storage.withRetentionPolicy policy).step (.createTopic topic) := by
  simp [ensureTwice, start, step, stepTask, stepEnsure, admits, RwLock.admits, TopicTask.guard,
    List.replicate, createPartition_panics policy topic _ hwal, Finmap.notMem_empty]

theorem reads_ensureTwice (policy : RetentionPolicy) (partitionId : UInt32) (topic : String)
    {wal : Option WalLog} (hwal : PartitionQueue.new policy wal = none)
    {files : String → Set (Option WalLog)} (hmem : wal ∈ files topic) :
    Along step (Reads files) (start policy partitionId) (ensureTwice topic wal) := by
  simp [ensureTwice, start, step, stepTask, stepEnsure, admits, RwLock.admits, TopicTask.guard,
    List.replicate, createPartition_panics policy topic _ hwal, Finmap.notMem_empty, Along, Reads,
    hmem]

/-- **Topics are created once, and can be used once they are ensured, exactly where
their files can be recovered.**  No run, whatever is read, creates a topic twice.
The topics are usable after `ensure_topic`, in all runs in which partitions are
created from files that their topics may have, if and only if each of these
files can be recovered. -/
theorem created_once_and_usable_iff (policy : RetentionPolicy) (partitionId : UInt32)
    (files : String → Set (Option WalLog)) :
    (∀ labels, Always step CreatedOnce (start policy partitionId) labels) ∧
    ((∀ labels, Along step (Reads files) (start policy partitionId) labels →
        Always step Usable (start policy partitionId) labels) ↔
      ∀ topic, ∀ wal ∈ files topic, PartitionQueue.Recoverable wal) := by
  refine ⟨fun labels => (inv_always policy partitionId labels).mono fun s h => h.createdOnce,
    ?_, fun hfiles labels hreads => usable_always policy partitionId hfiles hreads⟩
  intro husable topic wal hmem
  by_contra hbad
  have hnone : PartitionQueue.new policy wal = none := by
    by_contra hsome
    exact hbad ((PartitionQueue.new_ne_none_iff policy wal).mp hsome)
  have hreads := reads_ensureTwice policy partitionId topic hnone hmem
  obtain ⟨htasks, hstorage⟩ := run_ensureTwice policy partitionId topic hnone
  have hlast := (husable _ hreads).last
  -- the second call has returned, so the partition should be there
  have hhas := hlast.ensured (.ensure .publish topic .returned) (by simp [htasks]) topic rfl
  rw [hstorage] at hhas
  have hqueue : ∀ partition, ((Storage.withRetentionPolicy policy).step
      (.createTopic topic)).queue? topic partition = none := by
    intro partition
    show ((Finmap.insert topic ∅ ∅ : HashMap String (HashMap Int32 PartitionQueue)).lookup
      topic).bind _ = none
    rw [Finmap.lookup_insert]
    rfl
  rw [hqueue] at hhas
  cases hhas

/-- A file with the length of a frame, which is two to the power of 63. -/
def damagedFile : Option WalLog := some ⟨[0, 0, 0, 0, 0, 0, 0, 128]⟩

/-- Two calls of `publish` over that file, and the append for the second one. -/
def publishTwice : List TopicLabel :=
  ensureTwice "t" damagedFile ++ [.append 1 Storage.helloWorld .unixEpoch .unixEpoch]

/-- The first `publish` panics, the second one goes through, and its message is not
stored: the append returns `None`. -/
theorem ensured_topic_without_partition :
    ¬ PartitionQueue.Recoverable damagedFile ∧
      (publishTwice.foldl step (start .default 0)).appended = [("t", none)] ∧
      ¬ Always step Usable (start .default 0) publishTwice := by
  have hbad : ¬ PartitionQueue.Recoverable damagedFile := by
    rw [← PartitionQueue.new_ne_none_iff .default]
    decide +kernel
  have hnone : (publishTwice.foldl step (start .default 0)).appended = [("t", none)] := by
    decide +kernel
  refine ⟨hbad, hnone, fun h => ?_⟩
  exact h.last.appended ("t", none) (by rw [hnone]; exact List.mem_singleton_self _) rfl

/-! ### A call that nobody interrupts -/

/-- The table and the storage are those of the broker `n`. -/
structure Matches (s : TopicState) (n : Node) : Prop where
  partitionId : s.partitionId = n.broker.partitionId
  topics : ∀ topic, topic ∈ s.topics ↔ topic ∈ n.topics
  storage : s.storage.Refines n.broker.storage

/-- A call of `ensure_topic` from its start to its return, with nothing in between. -/
def ensureAlone (s : TopicState) (topic : String) (wal : Option WalLog) : List TopicLabel :=
  .ensureTopic .publish topic :: List.replicate 8 (.task s.tasks.length wal)

theorem ensureAlone_split (s : TopicState) (topic : String) (wal : Option WalLog) :
    ensureAlone s topic wal =
      (.ensureTopic .publish topic :: List.replicate 3 (.task s.tasks.length wal)) ++
        List.replicate 5 (.task s.tasks.length wal) := rfl

/-- The state `s` with one more call, which is at `phase`. -/
def calling (s : TopicState) (topic : String) (phase : EnsurePhase) : TopicState :=
  { s with tasks := s.tasks ++ [.ensure .publish topic phase] }

/-- A step of the call that came last. -/
theorem step_calling (s : TopicState) (topic : String) (phase : EnsurePhase)
    (wal : Option WalLog) :
    (s.calling topic phase).step (.task s.tasks.length wal) =
      let next := (s.calling topic phase).stepEnsure wal .publish topic phase
      { next.2 with tasks := next.2.tasks.set s.tasks.length (.ensure .publish topic next.1) } := by
  simp only [step, calling, List.getElem?_concat_length]
  rfl

/-- A step that leaves everything but the call as it is. -/
theorem step_calling_of_eq {topic : String} {phase phase' : EnsurePhase} {wal : Option WalLog}
    (h : (s.calling topic phase).stepEnsure wal .publish topic phase =
      (phase', s.calling topic phase)) :
    (s.calling topic phase).step (.task s.tasks.length wal) = s.calling topic phase' := by
  rw [step_calling, h]
  simp [calling]

theorem admits_calling (hidle : ∀ task ∈ s.tasks, task.guard = none) {topic : String}
    {phase : EnsurePhase} (hphase : (TopicTask.ensure .publish topic phase).guard = none)
    (mode : Mode) : (s.calling topic phase).admits mode = true := by
  refine RwLock.admits_of_free (fun task htask => ?_) mode
  rcases List.mem_append.mp htask with hold | hnew
  · exact hidle task hold
  · rw [List.mem_singleton.mp hnew]
    exact hphase

/-- The first three steps look whether the topic is there. -/
theorem ensureAlone_look (hidle : ∀ task ∈ s.tasks, task.guard = none) (topic : String)
    (wal : Option WalLog) :
    (.ensureTopic .publish topic :: List.replicate 3 (.task s.tasks.length wal)).foldl step s =
      s.calling topic (if topic ∈ s.topics then .returned else .write) := by
  have hread : (s.calling topic .read).step (.task s.tasks.length wal) =
      s.calling topic .check := by
    apply step_calling_of_eq
    rw [stepEnsure, admits_calling hidle rfl, if_pos rfl]
  have hcheck : (s.calling topic .check).step (.task s.tasks.length wal) =
      s.calling topic (.dropRead (topic ∈ s.topics)) := step_calling_of_eq rfl
  have hdrop : (s.calling topic (.dropRead (topic ∈ s.topics))).step
      (.task s.tasks.length wal) =
      s.calling topic (if topic ∈ s.topics then .returned else .write) := by
    apply step_calling_of_eq
    simp only [stepEnsure, decide_eq_true_eq]
  have hspawn : s.step (.ensureTopic .publish topic) = s.calling topic .read := rfl
  simp only [List.replicate, List.foldl_cons, List.foldl_nil, hspawn, hread, hcheck, hdrop]

/-- The topic is found, and nothing changes. -/
theorem ensureAlone_found (hidle : ∀ task ∈ s.tasks, task.guard = none) {topic : String}
    (hfound : topic ∈ s.topics) (wal : Option WalLog) :
    (ensureAlone s topic wal).foldl step s = s.calling topic .returned := by
  have hstay : (s.calling topic .returned).step (.task s.tasks.length wal) =
      s.calling topic .returned := step_calling_of_eq rfl
  have hlook := ensureAlone_look hidle topic wal
  rw [if_pos hfound] at hlook
  rw [ensureAlone_split, List.foldl_append, hlook]
  simp only [List.replicate, List.foldl_cons, List.foldl_nil, hstay]

theorem step_createTopic (s : TopicState) (topic : String) (wal : Option WalLog) :
    (s.calling topic .createTopic).step (.task s.tasks.length wal) =
      calling
        { s with
          storage := s.storage.step (.createTopic topic)
          created := s.created ++ [topic] } topic .createPartition := by
  rw [step_calling, stepEnsure]
  simp [calling]

theorem step_createPartition {topic : String} {wal : Option WalLog} {q : PartitionQueue}
    (hlookup : s.storage.topics.lookup topic = some ∅)
    (hnew : PartitionQueue.new s.storage.retentionPolicy wal = some q) :
    (s.calling topic .createPartition).step (.task s.tasks.length wal) =
      calling
        { s with storage := s.storage.step (.createPartition topic s.partition wal) }
        topic .dropWrite := by
  have hrun : Storage.createPartition topic s.partition wal .ideal s.storage =
      .ok (true, s.storage.setQueue topic s.partition q) := by
    rw [Storage.createPartition_ideal, hlookup]
    simp only [hnew]
  have hstep : s.storage.step (.createPartition topic s.partition wal) =
      s.storage.setQueue topic s.partition q := by
    simp only [Storage.step, StorageOp.exec, LockM.bind_run, hrun]
    rfl
  have hrun' : Storage.createPartition topic (s.calling topic .createPartition).partition wal
      .ideal (s.calling topic .createPartition).storage = _ := hrun
  rw [step_calling, stepEnsure, hrun', hstep]
  simp [calling]

/-- The topic is not found, and the storage gets it with the partition. -/
theorem ensureAlone_missing (hidle : ∀ task ∈ s.tasks, task.guard = none) {topic : String}
    (hmissing : topic ∉ s.topics) {wal : Option WalLog} {q : PartitionQueue}
    (hnew : PartitionQueue.new s.storage.retentionPolicy wal = some q) :
    (ensureAlone s topic wal).foldl step s =
      calling
        { s with
          topics := s.topics.insert topic ∅
          storage := (s.storage.step (.createTopic topic)).step
            (.createPartition topic s.partition wal)
          created := s.created ++ [topic] } topic .returned := by
  have hlook := ensureAlone_look hidle topic wal
  rw [if_neg hmissing] at hlook
  -- the five steps after the first look
  have hwrite : (s.calling topic .write).step (.task s.tasks.length wal) =
      s.calling topic .recheck := by
    apply step_calling_of_eq
    rw [stepEnsure, admits_calling hidle rfl, if_pos rfl]
  have hrecheck : (s.calling topic .recheck).step (.task s.tasks.length wal) =
      calling { s with topics := s.topics.insert topic ∅ } topic .createTopic := by
    have hmissing' : topic ∉ (s.calling topic .recheck).topics := hmissing
    rw [step_calling, stepEnsure, if_neg hmissing']
    simp [calling]
  have hcreate : (calling { s with topics := s.topics.insert topic ∅ } topic .createTopic).step
      (.task s.tasks.length wal) =
      calling
        { s with
          topics := s.topics.insert topic ∅
          storage := s.storage.step (.createTopic topic)
          created := s.created ++ [topic] } topic .createPartition := step_createTopic _ topic wal
  have hpartition : (calling
        { s with
          topics := s.topics.insert topic ∅
          storage := s.storage.step (.createTopic topic)
          created := s.created ++ [topic] } topic .createPartition).step
      (.task s.tasks.length wal) =
      calling
        { s with
          topics := s.topics.insert topic ∅
          storage := (s.storage.step (.createTopic topic)).step
            (.createPartition topic s.partition wal)
          created := s.created ++ [topic] } topic .dropWrite :=
    step_createPartition (Finmap.lookup_insert _) hnew
  have hdrop : ∀ s' : TopicState, s'.tasks = s.tasks →
      (s'.calling topic .dropWrite).step (.task s.tasks.length wal) =
        s'.calling topic .returned := by
    intro s' htasks
    rw [← htasks]
    exact step_calling_of_eq rfl
  rw [ensureAlone_split, List.foldl_append, hlook]
  simp only [List.replicate, List.foldl_cons, List.foldl_nil, hwrite, hrecheck, hcreate, hpartition]
  exact hdrop _ rfl

/-- **A call that nobody interrupts is `ensure_topic` as one step.** -/
theorem matches_ensureAlone {n : Node} (h : s.Matches n)
    (hidle : ∀ task ∈ s.tasks, task.guard = none) {topic : String} {wal : Option WalLog}
    (hsound : Log.Sound wal) (hrecovered : Log.recovered wal = n.recovered topic) :
    ((ensureAlone s topic wal).foldl step s).Matches (n.ensureTopic topic) := by
  by_cases hfound : topic ∈ s.topics
  · rw [ensureAlone_found hidle hfound, Node.ensureTopic, if_pos ((h.topics topic).mp hfound)]
    exact ⟨h.partitionId, h.topics, h.storage⟩
  · have hmissing : topic ∉ n.topics := fun hlisted => hfound ((h.topics topic).mpr hlisted)
    obtain ⟨q, hnew, -⟩ := PartitionQueue.keeps_new s.storage.retentionPolicy hsound
    rw [ensureAlone_missing hidle hfound hnew, Node.ensureTopic, if_neg hmissing]
    refine ⟨h.partitionId, fun topic' => ?_, ?_⟩
    · show topic' ∈ s.topics.insert topic ∅ ↔ topic' ∈ insert topic n.topics
      rw [Finmap.mem_insert, Finset.mem_insert, h.topics]
    · have hcreated := (h.storage.step (.createTopic topic) trivial).step
        (.createPartition topic s.partition wal) hsound
      have hpartition : s.partition = n.broker.partition := by
        rw [partition, h.partitionId]
        rfl
      rw [← hrecovered, ← hpartition]
      exact hcreated


end TopicState

end Rafka
