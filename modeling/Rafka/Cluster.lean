/-
Rafka/Cluster.lean

Brokers that forward messages to one another, and restart
(`Broker::publish`, `Broker::forward_message_to_partition` and
`Broker::forward_message` in `crates/broker/src/broker.rs`).

A broker that does not own the partition of a message passes it on to another
one and answers with what that one returns.  Which one it asks is up to its
routing tables, which may be stale, so any broker may be asked; it refuses what
is not for its own partition.

The answer of `publish` ought to tell the producer which message was stored and
broadcast.  But every path draws an id of its own for the answer: main result
(`never_identified`), in no run does an answer with success have the id of any
response that is broadcast.
-/
import Rafka.Serve

namespace Rafka

/-! ### Restarts -/

/-- What is left of a task when the broker goes down. -/
def Task.lose : Task → Task
  | .flusher _ => .flusher ⟨none, []⟩
  | .publish req .returned => .publish req .returned
  | .publish req _ => .publish req .lost
  | .forwardMessage req (.returned result) => .forwardMessage req (.returned result)
  | .forwardMessage req _ => .forwardMessage req .lost
  | .consume req _ => .consume req .lost

/-- The broker goes down and comes up again over the same files, with an empty
batcher and a message counter at zero. -/
def Node.restart (n : Node) : Node :=
  let recovered (topic : String) : Log :=
    (n.broker.storage.log? topic n.broker.partition).getD (n.recovered topic)
  let fresh := Node.start n.broker.partitionId n.totalPartitions recovered
  { fresh with
    broker := { fresh.broker with nextChannel := n.broker.nextChannel }
    tasks := n.tasks.map Task.lose
    streams := n.streams.map fun st => { st with isOpen := false }
    stored := n.stored
    deliveries := n.deliveries
    responses := n.responses }

/-! ### The cluster -/

/-- A call of `forward_message`: task `task` of broker `origin` waits for task
`callee` of broker `target`. -/
structure ForwardCall where
  origin : Nat
  task : Nat
  target : Nat
  callee : Nat
deriving DecidableEq

/-- Brokers, their calls of one another, and the ids that were drawn. -/
structure Cluster where
  nodes : List Node
  calls : List ForwardCall
  drawn : List String

/-- What happens next. -/
inductive ClusterLabel
  /-- A step of broker `a` by itself. -/
  | node (a : Nat) (label : NodeLabel)
  /-- Task `i` of broker `a` reaches broker `b`. -/
  | forward (a i b : Nat)
  /-- Task `i` of broker `a` finds nobody, or the call fails. -/
  | unreachable (a i : Nat)
  /-- The result of the call arrives. -/
  | reply (call : ForwardCall) (fresh : Fresh)
  | restart (a : Nat)

/-- The id that may be drawn in the step. -/
def ClusterLabel.draws : ClusterLabel → List String
  | .node _ (.task _ env) => [env.fresh.messageId]
  | .reply _ fresh => [fresh.messageId]
  | _ => []

namespace Cluster

/-- Brokers as `Broker::new` makes them, each with its partition, the number of
partitions and what its files hold. -/
def start (brokers : List (UInt32 × UInt32 × (String → Log))) : Cluster where
  nodes := brokers.map fun broker => Node.start broker.1 broker.2.1 broker.2.2
  calls := []
  drawn := []

/-- A broker changes. -/
def setNode (c : Cluster) (a : Nat) (n : Node) : Cluster := { c with nodes := c.nodes.set a n }

/-- A task of a broker changes. -/
def setTask (c : Cluster) (a : Nat) (n : Node) (i : Nat) (task : Task) : Cluster :=
  c.setNode a { n with tasks := n.tasks.set i task }

/-- The request that `forward_message_to_partition` sends. -/
def forwardRequest (req : PublishRequest) (targetPartition : UInt32) : ForwardMessageRequest where
  topic := req.topic
  key := req.key
  payload := req.payload
  targetPartition := targetPartition.toInt32

/-- Task `i` of broker `a` calls `forward_message` on broker `b`. -/
def forward (c : Cluster) (a i b : Nat) : Cluster :=
  match c.nodes[a]? with
  | none => c
  | some n =>
      match n.tasks[i]? with
      | some (.publish req (.forward targetPartition)) =>
          let c := c.setTask a n i (.publish req (.forwarded targetPartition))
          match c.nodes[b]? with
          | none => c
          | some m =>
              { c.setNode b (m.spawn (.forwardMessage (forwardRequest req targetPartition)
                  .checkPartition)) with
                calls := c.calls ++ [⟨a, i, b, m.tasks.length⟩] }
      | _ => c

/-- Task `i` of broker `a` returns an error. -/
def unreachable (c : Cluster) (a i : Nat) : Cluster :=
  match c.nodes[a]? with
  | none => c
  | some n =>
      match n.tasks[i]? with
      | some (.publish req (.forward _)) => c.setTask a n i (.publish req .returned)
      | some (.publish req (.forwarded _)) => c.setTask a n i (.publish req .returned)
      | _ => c

/-- What the call has returned, if it has. -/
def result? (c : Cluster) (call : ForwardCall) : Option (Except String ForwardMessageResponse) :=
  match c.nodes[call.target]?.bind fun m => m.tasks[call.callee]? with
  | some (.forwardMessage _ (.returned result)) => some result
  | _ => none

/-- The answer of a `publish` that was forwarded. -/
def forwardedResponse (fresh : Fresh) (targetPartition : UInt32)
    (resp : ForwardMessageResponse) : PublishResponse where
  messageId := fresh.messageId
  success := resp.success
  message := "Message forwarded to partition " ++ toString targetPartition ++ " via P2P mesh"
  partition := targetPartition.toInt32
  offset := resp.offset

/-- The result of a call arrives at the task that waits for it. -/
def reply (c : Cluster) (call : ForwardCall) (fresh : Fresh) : Cluster :=
  match c.nodes[call.origin]? with
  | none => c
  | some n =>
      match n.tasks[call.task]?, c.result? call with
      | some (.publish req (.forwarded targetPartition)), some (.ok resp) =>
          c.setTask call.origin
            { n with
              responses := n.responses ++
                [(⟨call.task, req⟩, forwardedResponse fresh targetPartition resp)] }
            call.task (.publish req .returned)
      | some (.publish req (.forwarded _)), some (.error _) =>
          c.setTask call.origin n call.task (.publish req .returned)
      | _, _ => c

/-- What a step does, without the record of the ids. -/
def act (c : Cluster) : ClusterLabel → Cluster
  | .node a label =>
      match c.nodes[a]? with
      | some n => c.setNode a (n.step label)
      | none => c
  | .forward a i b => c.forward a i b
  | .unreachable a i => c.unreachable a i
  | .reply call fresh => if call ∈ c.calls then c.reply call fresh else c
  | .restart a =>
      match c.nodes[a]? with
      | some n => c.setNode a n.restart
      | none => c

/-- One step of the cluster. -/
def step (c : Cluster) (label : ClusterLabel) : Cluster :=
  { c.act label with drawn := c.drawn ++ label.draws }

/-! ### What is to hold -/

/-- The request `t'` on broker `b` is that of the call of `publish` with the request
`t` on broker `a`: it is the same, or it was forwarded. -/
def Carries (c : Cluster) (a : Nat) (t : Tagged) (b : Nat) (t' : Tagged) : Prop :=
  (b = a ∧ t' = t) ∨
    ∃ call ∈ c.calls, call.origin = a ∧ call.task = t.tag ∧ call.target = b ∧
      call.callee = t'.tag

/-- The answer tells which message was stored and broadcast. -/
def Identified (c : Cluster) (a : Nat) (t : Tagged) (r : PublishResponse) : Prop :=
  ∃ b m t', c.Carries a t b t' ∧ c.nodes[b]? = some m ∧ m.broker.partition = r.partition ∧
    (t', r.offset) ∈ m.stored ∧ ∃ sender delivery, (sender, delivery) ∈ m.deliveries ∧
      delivery.request = t' ∧ delivery.response.messageId = r.messageId ∧
      delivery.response.partition = r.partition ∧ delivery.response.offset = r.offset

/-- The ids that the step may draw have not been drawn before. -/
def FreshIds (c : Cluster) (label : ClusterLabel) : Prop := ∀ id ∈ label.draws, id ∉ c.drawn

instance (c : Cluster) (label : ClusterLabel) : Decidable (c.FreshIds label) :=
  inferInstanceAs (Decidable (∀ id ∈ label.draws, id ∉ c.drawn))

end Cluster

/-! ### Ids of two kinds -/

/-- The ids of the responses for consumers, and those of the answers. -/
structure Ids where
  broadcast : Set String
  answer : Set String

namespace Ids

/-- No others are used. -/
structure Quiet (x x' : Ids) : Prop where
  broadcast : x'.broadcast ⊆ x.broadcast
  answer : x'.answer ⊆ x.answer

/-- Those drawn are used for responses to consumers, or for answers, but not for
both. -/
def Uses (draws : List String) (x x' : Ids) : Prop :=
  (x'.broadcast ⊆ x.broadcast ∪ {id | id ∈ draws} ∧ x'.answer ⊆ x.answer) ∨
    (x'.broadcast ⊆ x.broadcast ∧ x'.answer ⊆ x.answer ∪ {id | id ∈ draws})

/-- All have been drawn, and none is of both kinds. -/
structure Apart (drawn : List String) (x : Ids) : Prop where
  broadcast : ∀ id ∈ x.broadcast, id ∈ drawn
  answer : ∀ id ∈ x.answer, id ∈ drawn
  apart : ∀ id ∈ x.broadcast, id ∉ x.answer

variable {x x' x'' : Ids} {drawn draws : List String}

theorem Quiet.refl (x : Ids) : Quiet x x := ⟨Set.Subset.refl _, Set.Subset.refl _⟩

theorem Quiet.trans (h : Quiet x x') (h' : Quiet x' x'') : Quiet x x'' :=
  ⟨h'.broadcast.trans h.broadcast, h'.answer.trans h.answer⟩

theorem Quiet.uses (h : Quiet x x') (draws : List String) : Uses draws x x' :=
  .inl ⟨h.broadcast.trans Set.subset_union_left, h.answer⟩

/-- **Ids of both kinds stay apart**, if what is drawn has not been drawn before. -/
theorem Apart.uses (hapart : Apart drawn x) (huses : Uses draws x x')
    (hfresh : ∀ id ∈ draws, id ∉ drawn) : Apart (drawn ++ draws) x' := by
  have hbroadcast : ∀ id ∈ x.broadcast, id ∈ drawn ++ draws :=
    fun id hid => List.mem_append_left _ (hapart.broadcast id hid)
  have hanswer : ∀ id ∈ x.answer, id ∈ drawn ++ draws :=
    fun id hid => List.mem_append_left _ (hapart.answer id hid)
  rcases huses with ⟨hnew, hsame⟩ | ⟨hsame, hnew⟩
  · refine ⟨fun id hid => ?_, fun id hid => hanswer id (hsame hid), ?_⟩
    · rcases hnew hid with hold | hdraw
      · exact hbroadcast id hold
      · exact List.mem_append_right _ hdraw
    · intro id hid hid'
      rcases hnew hid with hold | hdraw
      · exact hapart.apart id hold (hsame hid')
      · exact hfresh id hdraw (hapart.answer id (hsame hid'))
  · refine ⟨fun id hid => hbroadcast id (hsame hid), fun id hid => ?_, ?_⟩
    · rcases hnew hid with hold | hdraw
      · exact hanswer id hold
      · exact List.mem_append_right _ hdraw
    · intro id hid hid'
      rcases hnew hid' with hold | hdraw
      · exact hapart.apart id (hsame hid) hold
      · exact hfresh id hdraw (hapart.broadcast id (hsame hid))

end Ids

/-! ### The ids that a broker uses -/

open Ids

namespace Node

/-- The response has been sent, or some task is about to send it. -/
def Carried (n : Node) (delivery : Delivery) : Prop :=
  (∃ sender, (sender, delivery) ∈ n.deliveries) ∨
    ∃ i, ∃ task : Task, ∃ target, n.tasks[i]? = some task ∧
      (task.hand i).delivery = some (delivery, target)

def ids (n : Node) : Ids where
  broadcast := {id | ∃ delivery, n.Carried delivery ∧ delivery.response.messageId = id}
  answer := {id | ∃ t r, (t, r) ∈ n.responses ∧ r.messageId = id}

/-- No message is processed by itself. -/
def Batched (n : Node) : Prop := ∀ task ∈ n.tasks, task.isSingle = false

variable {n n' : Node} {env : StepEnv} {i : Nat} {task : Task}

/-- A step that sends nothing and answers nothing, and after which the tasks have
no other responses in their hands. -/
theorem quiet_of_tasks (hdeliveries : n'.deliveries = n.deliveries)
    (hresponses : n'.responses = n.responses)
    (htasks : ∀ j (task : Task), n'.tasks[j]? = some task →
      n.tasks[j]? = some task ∨ (task.hand j).delivery = none) : Quiet n.ids n'.ids := by
  constructor
  · rintro id ⟨delivery, hcarried, rfl⟩
    refine ⟨delivery, ?_, rfl⟩
    rcases hcarried with ⟨sender, hsent⟩ | ⟨j, task, target, hj, hhand⟩
    · exact .inl ⟨sender, hdeliveries ▸ hsent⟩
    · rcases htasks j task hj with hold | hnone
      · exact .inr ⟨j, task, target, hold, hhand⟩
      · rw [hnone] at hhand
        cases hhand
  · rintro id ⟨t, r, hr, rfl⟩
    exact ⟨t, r, hresponses ▸ hr, rfl⟩

theorem quiet_of_same (htasks : n'.tasks = n.tasks) (hdeliveries : n'.deliveries = n.deliveries)
    (hresponses : n'.responses = n.responses) : Quiet n.ids n'.ids :=
  quiet_of_tasks hdeliveries hresponses fun _ _ hj => .inl (htasks ▸ hj)

/-- A new task has nothing in its hands. -/
theorem quiet_spawn (n : Node) (hempty : (task.hand n.tasks.length).delivery = none) :
    Quiet n.ids (n.spawn task).ids := by
  refine quiet_of_tasks rfl rfl fun j task' hj => ?_
  rcases getElem?_concat_cases hj with hold | ⟨rfl, rfl⟩
  · exact .inl hold
  · exact .inr hempty

/-- A task puts down what it has. -/
theorem quiet_set (n : Node) (hempty : (task.hand i).delivery = none) :
    Quiet n.ids ({ n with tasks := n.tasks.set i task } : Node).ids := by
  refine quiet_of_tasks rfl rfl fun j task' hj => ?_
  rcases getElem?_set_cases hj with ⟨rfl, rfl⟩ | ⟨-, hold⟩
  · exact .inr hempty
  · exact .inl hold

theorem delivery_hand_lose (j : Nat) (task : Task) : (task.lose.hand j).delivery = none := by
  cases task with
  | flusher drain => rfl
  | publish req phase => cases phase <;> rfl
  | forwardMessage req phase => cases phase <;> rfl
  | consume req phase => rfl

/-- What the tasks had in their hands is gone. -/
theorem quiet_restart (n : Node) : Quiet n.ids n.restart.ids := by
  refine quiet_of_tasks rfl rfl fun j task hj => ?_
  have hmap : (n.tasks.map Task.lose)[j]? = some task := hj
  rw [List.getElem?_map] at hmap
  obtain ⟨old, -, rfl⟩ := Option.map_eq_some_iff.mp hmap
  exact .inr (delivery_hand_lose j old)

theorem outputs_ensureTopic (n : Node) (topic : String) :
    (n.ensureTopic topic).deliveries = n.deliveries ∧
      (n.ensureTopic topic).responses = n.responses := by
  unfold ensureTopic
  split <;> exact ⟨rfl, rfl⟩

/-- A step of a task that makes or passes on a response for consumers. -/
structure Broadcasts (env : StepEnv) (n n' : Node) (h h' : Hand) : Prop where
  responses : n'.responses = n.responses
  sent : ∀ sender delivery, (sender, delivery) ∈ n'.deliveries →
    (sender, delivery) ∈ n.deliveries ∨ h.delivery = some (delivery, some sender)
  own : ∀ delivery target, h'.delivery = some (delivery, target) →
    delivery.response.messageId = env.fresh.messageId ∨ ∃ old, h.delivery = some (delivery, old)

/-- A step of a task that answers. -/
structure Answers (env : StepEnv) (n n' : Node) (h' : Hand) : Prop where
  deliveries : n'.deliveries = n.deliveries
  responses : ∃ t r, n'.responses = n.responses ++ [(t, r)] ∧ r.messageId = env.fresh.messageId
  own : h'.delivery = none

/-- A step without a response. -/
theorem Broadcasts.of_none {h h' : Hand} (hresponses : n'.responses = n.responses)
    (hdeliveries : n'.deliveries = n.deliveries) (hnone : h'.delivery = none) :
    Broadcasts env n n' h h' where
  responses := hresponses
  sent _ _ hsent := .inl (hdeliveries ▸ hsent)
  own delivery target hown := by
    rw [hnone] at hown
    cases hown

/-- A step that makes a response. -/
theorem Broadcasts.of_fresh {h h' : Hand} {delivery : Delivery} {target : Option Channel}
    (hresponses : n'.responses = n.responses) (hdeliveries : n'.deliveries = n.deliveries)
    (hown : h'.delivery = some (delivery, target))
    (hid : delivery.response.messageId = env.fresh.messageId) : Broadcasts env n n' h h' where
  responses := hresponses
  sent _ _ hsent := .inl (hdeliveries ▸ hsent)
  own delivery' target' hown' := by
    rw [hown] at hown'
    cases hown'
    exact .inl hid

/-- A step never makes a response and an answer with the id that it draws. -/
theorem Effect.outputs {h h' : Hand} (heffect : Effect env n i task h h' n')
    (hsingle : task.isSingle = false) : Broadcasts env n n' h h' ∨ Answers env n n' h' := by
  cases heffect with
  | ensureTopic hown =>
      rename_i t
      have houtputs := outputs_ensureTopic n t.req.topic
      exact .inl (.of_none houtputs.2 houtputs.1 rfl)
  | addMessage hadd => exact .inl (.of_none rfl rfl rfl)
  | getReadyBatches => exact .inl (.of_none rfl rfl rfl)
  | pass processor hsub => exact .inl (.of_none rfl rfl rfl)
  | respond counter hid => exact .inr ⟨rfl, ⟨_, _, rfl, hid hsingle⟩, rfl⟩
  | acquire hch hsub hsender => exact .inl (.of_none rfl rfl rfl)
  | acquireFor hch =>
      refine .inl ⟨rfl, fun _ _ hsent => .inl hsent, ?_⟩
      rintro delivery' target ⟨⟩
      exact .inr ⟨none, rfl⟩
  | storeBatched hnext hstore =>
      obtain rfl := store_eq_some hstore
      exact .inl (.of_fresh rfl rfl rfl rfl)
  | countBatched counter hnext hstore =>
      obtain ⟨-, rfl⟩ := store_eq_none hstore
      exact .inl (.of_fresh rfl rfl rfl rfl)
  | storeDirect hstore =>
      obtain rfl := store_eq_some hstore
      exact .inl (.of_fresh rfl rfl rfl rfl)
  | failDirect hstore =>
      obtain ⟨-, rfl⟩ := store_eq_none hstore
      exact .inl (.of_none rfl rfl rfl)
  | send =>
      refine .inl ⟨rfl, fun sender delivery hsent => ?_, by rintro _ _ ⟨⟩⟩
      rcases List.mem_append.mp hsent with hold | hnew
      · exact .inl hold
      · cases List.mem_singleton.mp hnew
        exact .inr rfl
  | subscribe => exact .inl (.of_none rfl rfl rfl)

/-- A response after a step of a task has been sent, is in the hands of the task,
or was in some hands before. -/
theorem carried_cases {task' : Task} {delivery : Delivery} (htasks : n'.tasks = n.tasks)
    (h : ({ n' with tasks := n'.tasks.set i task' } : Node).Carried delivery) :
    (∃ sender, (sender, delivery) ∈ n'.deliveries) ∨
      (∃ target, (task'.hand i).delivery = some (delivery, target)) ∨ n.Carried delivery := by
  rcases h with hsent | ⟨j, other, target, hj, hhand⟩
  · exact .inl hsent
  · rcases getElem?_set_cases hj with ⟨rfl, rfl⟩ | ⟨-, hold⟩
    · exact .inr (.inl ⟨target, hhand⟩)
    · rw [htasks] at hold
      exact .inr (.inr (.inr ⟨j, other, target, hold, hhand⟩))

/-- **Step lemma for the tasks.** -/
theorem uses_stepTask (env : StepEnv) (hi : n.tasks[i]? = some task)
    (hsingle : task.isSingle = false) :
    Uses [env.fresh.messageId] n.ids
      ({ (n.stepTask env i task).2 with
        tasks := (n.stepTask env i task).2.tasks.set i (n.stepTask env i task).1 } : Node).ids := by
  have heffect := effect_stepTask env n i task
  have htasks := heffect.tasks_eq
  rcases heffect.outputs hsingle with hbroadcasts | hanswers
  · refine .inl ⟨?_, ?_⟩
    · rintro id ⟨delivery, hcarried, rfl⟩
      rcases carried_cases htasks hcarried with ⟨sender, hsent⟩ | ⟨target, hown⟩ | hold
      · rcases hbroadcasts.sent sender delivery hsent with hold | hown
        · exact .inl ⟨delivery, .inl ⟨sender, hold⟩, rfl⟩
        · exact .inl ⟨delivery, .inr ⟨i, task, some sender, hi, hown⟩, rfl⟩
      · rcases hbroadcasts.own delivery target hown with hfresh | ⟨old, hown'⟩
        · exact .inr (List.mem_singleton.mpr hfresh)
        · exact .inl ⟨delivery, .inr ⟨i, task, old, hi, hown'⟩, rfl⟩
      · exact .inl ⟨delivery, hold, rfl⟩
    · rintro id ⟨t, r, hr, rfl⟩
      exact ⟨t, r, hbroadcasts.responses ▸ hr, rfl⟩
  · refine .inr ⟨?_, ?_⟩
    · rintro id ⟨delivery, hcarried, rfl⟩
      rcases carried_cases htasks hcarried with ⟨sender, hsent⟩ | ⟨target, hown⟩ | hold
      · exact ⟨delivery, .inl ⟨sender, hanswers.deliveries ▸ hsent⟩, rfl⟩
      · rw [hanswers.own] at hown
        cases hown
      · exact ⟨delivery, hold, rfl⟩
    · rintro id ⟨t, r, hr, rfl⟩
      obtain ⟨t', r', hresponses, hid⟩ := hanswers.responses
      have hr' : (t, r) ∈ n.responses ++ [(t', r')] := hresponses ▸ hr
      rcases List.mem_append.mp hr' with hold | hnew
      · exact .inl ⟨t, r, hold, rfl⟩
      · cases List.mem_singleton.mp hnew
        exact .inr (List.mem_singleton.mpr hid)

/-- The batcher takes every message. -/
theorem isSingle_stepTask (env : StepEnv) (n : Node) (i : Nat) (hsingle : task.isSingle = false) :
    (n.stepTask env i task).1.isSingle = false := by
  cases task with
  | flusher drain =>
      simp only [stepTask]
      split <;> rfl
  | publish req phase =>
      cases phase with
      | addMessage =>
          obtain ⟨batcher, hadd⟩ := n.batcher.addMessage_isOk ⟨i, req⟩ (env.now 0)
          simp only [stepTask, stepPublish, hadd]
          rfl
      | single direct => cases hsingle
      | processing drain =>
          simp only [stepTask, stepPublish]
          split <;> rfl
      | ensureTopic => rfl
      | getReadyBatches => rfl
      | respond => rfl
      | forward targetPartition => rfl
      | forwarded targetPartition => rfl
      | returned => rfl
      | lost => rfl
  | forwardMessage req phase => rfl
  | consume req phase => cases phase <;> rfl

theorem Batched.set (hbatched : n.Batched) (hsingle : task.isSingle = false)
    (htasks : n'.tasks = n.tasks.set i task) : n'.Batched := by
  intro task' htask'
  rw [htasks] at htask'
  rcases List.mem_or_eq_of_mem_set htask' with hold | rfl
  · exact hbatched task' hold
  · exact hsingle

theorem Batched.spawn (hbatched : n.Batched) (hsingle : task.isSingle = false) :
    (n.spawn task).Batched := by
  intro task' htask'
  rcases List.mem_append.mp htask' with hold | hnew
  · exact hbatched task' hold
  · rw [List.mem_singleton.mp hnew]
    exact hsingle

theorem batched_restart (n : Node) : n.restart.Batched := by
  intro task htask
  obtain ⟨old, -, rfl⟩ := List.mem_map.mp (show task ∈ n.tasks.map Task.lose from htask)
  cases old with
  | flusher drain => rfl
  | publish req phase => cases phase <;> rfl
  | forwardMessage req phase => cases phase <;> rfl
  | consume req phase => rfl

/-- **Step lemma for a broker.** -/
theorem uses_step (hbatched : n.Batched) (a : Nat) (label : NodeLabel) :
    Uses (ClusterLabel.node a label).draws n.ids (n.step label).ids ∧ (n.step label).Batched := by
  cases label with
  | publish req =>
      have hempty : ∀ k, (Task.hand k (.publish req
          (if PublishState.hashKey req.key % n.totalPartitions ≠ n.broker.partitionId then
            .forward (PublishState.hashKey req.key % n.totalPartitions)
          else .ensureTopic))).delivery = none := by
        intro k
        split <;> rfl
      refine ⟨(quiet_spawn n (hempty _)).uses _, hbatched.spawn ?_⟩
      split <;> rfl
  | forwardMessage req => exact ⟨(quiet_spawn n rfl).uses _, hbatched.spawn rfl⟩
  | consume req => exact ⟨(quiet_spawn n rfl).uses _, hbatched.spawn rfl⟩
  | subscribe topic =>
      have htasks := tasks_ensureTopic n topic
      have houtputs := outputs_ensureTopic n topic
      refine ⟨(quiet_of_same htasks houtputs.1 houtputs.2).uses _, ?_⟩
      intro task htask
      exact hbatched task (htasks ▸ htask)
  | task i env =>
      simp only [step]
      split
      · rename_i task hi
        have hsingle := hbatched task (List.mem_of_getElem? hi)
        refine ⟨uses_stepTask env hi hsingle, ?_⟩
        apply hbatched.set (i := i) (isSingle_stepTask env n i hsingle)
        show (n.stepTask env i task).2.tasks.set i _ = n.tasks.set i _
        rw [(effect_stepTask env n i task).tasks_eq]
      · exact ⟨(Quiet.refl _).uses _, hbatched⟩
  | client i gone =>
      simp only [step]
      split
      · rename_i st hi
        have hframe := frame_stepClient n i st gone
        refine ⟨(quiet_of_same hframe.tasks hframe.deliveries hframe.responses).uses _, ?_⟩
        intro task htask
        exact hbatched task (hframe.tasks ▸ htask)
      · exact ⟨(Quiet.refl _).uses _, hbatched⟩
  | close i =>
      simp only [step]
      split
      · exact ⟨(quiet_of_same rfl rfl rfl).uses _, hbatched⟩
      · exact ⟨(Quiet.refl _).uses _, hbatched⟩

end Node

/-! ### The ids that the cluster uses -/

namespace Cluster

def ids (c : Cluster) : Ids where
  broadcast := {id | ∃ n ∈ c.nodes, id ∈ n.ids.broadcast}
  answer := {id | ∃ n ∈ c.nodes, id ∈ n.ids.answer}

def Batched (c : Cluster) : Prop := ∀ n ∈ c.nodes, n.Batched

variable {c : Cluster} {a : Nat} {n n' : Node} {draws : List String}

/-- An id that the brokers have after one of them changed. -/
theorem mem_setNode {f : Node → Set String} {S : Set String} (hn : n ∈ c.nodes)
    (h : f n' ⊆ f n ∪ S) {id : String} (hid : ∃ m ∈ (c.setNode a n').nodes, id ∈ f m) :
    (∃ m ∈ c.nodes, id ∈ f m) ∨ id ∈ S := by
  obtain ⟨m, hm, hid⟩ := hid
  rcases List.mem_or_eq_of_mem_set hm with hold | rfl
  · exact .inl ⟨m, hold, hid⟩
  · rcases h hid with hbefore | hdraw
    · exact .inl ⟨n, hn, hbefore⟩
    · exact .inr hdraw

theorem mem_setNode_of_subset {f : Node → Set String} (hn : n ∈ c.nodes) (h : f n' ⊆ f n)
    {id : String} (hid : ∃ m ∈ (c.setNode a n').nodes, id ∈ f m) : ∃ m ∈ c.nodes, id ∈ f m := by
  have hnone : f n' ⊆ f n ∪ ∅ := h.trans Set.subset_union_left
  rcases mem_setNode hn hnone hid with hold | hempty
  · exact hold
  · cases hempty

theorem uses_setNode (hn : n ∈ c.nodes) (huses : Uses draws n.ids n'.ids) :
    Uses draws c.ids (c.setNode a n').ids := by
  rcases huses with ⟨hnew, hsame⟩ | ⟨hsame, hnew⟩
  · exact .inl ⟨fun _ hid => mem_setNode (f := fun m => m.ids.broadcast) hn hnew hid,
      fun _ hid => mem_setNode_of_subset (f := fun m => m.ids.answer) hn hsame hid⟩
  · exact .inr ⟨fun _ hid => mem_setNode_of_subset (f := fun m => m.ids.broadcast) hn hsame hid,
      fun _ hid => mem_setNode (f := fun m => m.ids.answer) hn hnew hid⟩

theorem quiet_setNode (hn : n ∈ c.nodes) (hquiet : Quiet n.ids n'.ids) :
    Quiet c.ids (c.setNode a n').ids where
  broadcast _ hid := mem_setNode_of_subset (f := fun m => m.ids.broadcast) hn hquiet.broadcast hid
  answer _ hid := mem_setNode_of_subset (f := fun m => m.ids.answer) hn hquiet.answer hid

theorem Batched.setNode (hbatched : c.Batched) (hn' : n'.Batched) :
    (c.setNode a n').Batched := by
  intro m hm
  rcases List.mem_or_eq_of_mem_set hm with hold | rfl
  · exact hbatched m hold
  · exact hn'

/-- A task of a broker puts down what it has. -/
theorem quiet_setTask {i : Nat} {task : Task} (hn : n ∈ c.nodes)
    (hempty : (task.hand i).delivery = none) : Quiet c.ids (c.setTask a n i task).ids :=
  quiet_setNode hn (n.quiet_set hempty)

theorem Batched.setTask (hbatched : c.Batched) {i : Nat} {task : Task} (hn : n ∈ c.nodes)
    (hsingle : task.isSingle = false) : (c.setTask a n i task).Batched :=
  hbatched.setNode ((hbatched n hn).set hsingle rfl)

/-- A call of another broker uses no id. -/
theorem quiet_forward (hbatched : c.Batched) (a i b : Nat) :
    Quiet c.ids (c.forward a i b).ids ∧ (c.forward a i b).Batched := by
  unfold forward
  split
  · exact ⟨Quiet.refl _, hbatched⟩
  · rename_i n ha
    have hn : n ∈ c.nodes := List.mem_of_getElem? ha
    split
    · rename_i req targetPartition hi
      have hquiet : Quiet c.ids
          (c.setTask a n i (.publish req (.forwarded targetPartition))).ids := quiet_setTask hn rfl
      have hbatched' : (c.setTask a n i (.publish req (.forwarded targetPartition))).Batched :=
        hbatched.setTask hn rfl
      dsimp only
      split
      · exact ⟨hquiet, hbatched'⟩
      · rename_i m hb
        have hm := List.mem_of_getElem? hb
        exact ⟨hquiet.trans (quiet_setNode hm (m.quiet_spawn rfl)),
          hbatched'.setNode ((hbatched' m hm).spawn rfl)⟩
    · exact ⟨Quiet.refl _, hbatched⟩

theorem quiet_unreachable (hbatched : c.Batched) (a i : Nat) :
    Quiet c.ids (c.unreachable a i).ids ∧ (c.unreachable a i).Batched := by
  unfold unreachable
  split
  · exact ⟨Quiet.refl _, hbatched⟩
  · rename_i n ha
    have hn : n ∈ c.nodes := List.mem_of_getElem? ha
    split
    · exact ⟨quiet_setTask hn rfl, hbatched.setTask hn rfl⟩
    · exact ⟨quiet_setTask hn rfl, hbatched.setTask hn rfl⟩
    · exact ⟨Quiet.refl _, hbatched⟩

/-- The answer to a message that was forwarded has an id of its own. -/
theorem uses_reply (hbatched : c.Batched) (call : ForwardCall) (fresh : Fresh) :
    Uses [fresh.messageId] c.ids (c.reply call fresh).ids ∧ (c.reply call fresh).Batched := by
  unfold reply
  split
  · exact ⟨(Quiet.refl _).uses _, hbatched⟩
  · rename_i n ha
    have hn : n ∈ c.nodes := List.mem_of_getElem? ha
    split
    · rename_i req targetPartition resp hi hresult
      refine ⟨uses_setNode hn (.inr ⟨?_, ?_⟩), hbatched.setNode ((hbatched n hn).set rfl rfl)⟩
      · have hempty : (Task.hand call.task (.publish req .returned)).delivery = none := rfl
        exact (n.quiet_set hempty).broadcast
      · rintro id ⟨t, r, hr, rfl⟩
        rcases List.mem_append.mp hr with hold | hnew
        · exact .inl ⟨t, r, hold, rfl⟩
        · cases List.mem_singleton.mp hnew
          exact .inr (List.mem_singleton_self _)
    · exact ⟨(quiet_setTask hn rfl).uses _, hbatched.setTask hn rfl⟩
    · exact ⟨(Quiet.refl _).uses _, hbatched⟩

/-- **Step lemma.**  What a step draws is used for responses to consumers, or for
answers, but not for both. -/
theorem uses_act (hbatched : c.Batched) (label : ClusterLabel) :
    Uses label.draws c.ids (c.act label).ids ∧ (c.act label).Batched := by
  cases label with
  | node a label =>
      simp only [act]
      split
      · rename_i n ha
        have hn : n ∈ c.nodes := List.mem_of_getElem? ha
        obtain ⟨huses, hn'⟩ := Node.uses_step (hbatched n hn) a label
        exact ⟨uses_setNode hn huses, hbatched.setNode hn'⟩
      · exact ⟨(Quiet.refl _).uses _, hbatched⟩
  | forward a i b =>
      obtain ⟨hquiet, hbatched'⟩ := quiet_forward hbatched a i b
      exact ⟨hquiet.uses _, hbatched'⟩
  | unreachable a i =>
      obtain ⟨hquiet, hbatched'⟩ := quiet_unreachable hbatched a i
      exact ⟨hquiet.uses _, hbatched'⟩
  | reply call fresh =>
      simp only [act]
      split
      · exact uses_reply hbatched call fresh
      · exact ⟨(Quiet.refl _).uses _, hbatched⟩
  | restart a =>
      simp only [act]
      split
      · rename_i n ha
        exact ⟨(quiet_setNode (List.mem_of_getElem? ha) n.quiet_restart).uses _,
          hbatched.setNode n.batched_restart⟩
      · exact ⟨(Quiet.refl _).uses _, hbatched⟩

/-! ### Runs -/

/-- The invariant. -/
structure Inv (c : Cluster) : Prop where
  apart : c.ids.Apart c.drawn
  batched : c.Batched

theorem inv_step (hinv : c.Inv) {label : ClusterLabel} (hfresh : c.FreshIds label) :
    (c.step label).Inv := by
  obtain ⟨huses, hbatched⟩ := uses_act hinv.batched label
  exact ⟨hinv.apart.uses huses hfresh, hbatched⟩

/-- Nothing has been sent or answered yet. -/
theorem inv_start (brokers : List (UInt32 × UInt32 × (String → Log))) : (start brokers).Inv := by
  have hnode : ∀ n ∈ (start brokers).nodes, ∃ partitionId totalPartitions recovered,
      n = Node.start partitionId totalPartitions recovered := by
    intro n hn
    obtain ⟨broker, -, rfl⟩ := List.mem_map.mp hn
    exact ⟨_, _, _, rfl⟩
  have hbroadcast : ∀ id, id ∉ (start brokers).ids.broadcast := by
    rintro id ⟨n, hn, delivery, hcarried, rfl⟩
    obtain ⟨partitionId, totalPartitions, recovered, rfl⟩ := hnode n hn
    rcases hcarried with ⟨sender, ⟨⟩⟩ | ⟨i, task, target, hi, hhand⟩
    obtain ⟨hidx, rfl⟩ := List.getElem?_eq_some_iff.mp hi
    obtain rfl : i = 0 := Nat.lt_one_iff.mp hidx
    cases hhand
  have hanswer : ∀ id, id ∉ (start brokers).ids.answer := by
    rintro id ⟨n, hn, t, r, hr, rfl⟩
    obtain ⟨partitionId, totalPartitions, recovered, rfl⟩ := hnode n hn
    cases hr
  refine ⟨⟨fun id hid => (hbroadcast id hid).elim, fun id hid => (hanswer id hid).elim,
    fun id hid => (hbroadcast id hid).elim⟩, ?_⟩
  intro n hn task htask
  obtain ⟨partitionId, totalPartitions, recovered, rfl⟩ := hnode n hn
  rw [List.mem_singleton.mp (show task ∈ [Task.flusher ⟨none, []⟩] from htask)]
  rfl

/-- Then no answer tells which message was stored and broadcast. -/
theorem Inv.not_identified (hinv : c.Inv) {a : Nat} {t : Tagged} {r : PublishResponse}
    (ha : c.nodes[a]? = some n) (hr : (t, r) ∈ n.responses) : ¬ c.Identified a t r := by
  rintro ⟨b, m, t', -, hm, -, -, sender, delivery, hsent, -, hid, -⟩
  have hbroadcast : r.messageId ∈ c.ids.broadcast :=
    ⟨m, List.mem_of_getElem? hm, delivery, .inl ⟨sender, hsent⟩, hid⟩
  have hanswer : r.messageId ∈ c.ids.answer := ⟨n, List.mem_of_getElem? ha, t, r, hr, rfl⟩
  exact hinv.apart.apart r.messageId hbroadcast hanswer

/-- **No answer of `publish` identifies the message.**  In a run in which no id is
drawn twice, whatever topics, forwarding and restarts there are, no answer with
success ever tells which message was stored and broadcast. -/
theorem never_identified (brokers : List (UInt32 × UInt32 × (String → Log)))
    (labels : List ClusterLabel) (hfresh : Along step FreshIds (start brokers) labels) :
    Always step (fun c => ∀ a n t r, c.nodes[a]? = some n → (t, r) ∈ n.responses →
      r.success = true → ¬ c.Identified a t r) (start brokers) labels := by
  have hinv : Always step Inv (start brokers) labels :=
    .of_along (inv_start brokers) hfresh fun c label hinv hlabel => inv_step hinv hlabel
  apply hinv.mono
  intro c hc a n t r ha hr _
  exact hc.not_identified ha hr

/-- A broker alone, without any files. -/
def alone : Cluster := start [(0, 1, fun _ => [])]

/-- Steps of tasks of that broker, each with its time; the first one draws the id
`first`, the next one the number after it, and so on. -/
def taskSteps (first : Nat) (steps : List (Nat × Instant)) : List ClusterLabel :=
  (steps.zipIdx first).map fun step =>
    .node 0 (.task step.1.1
      { PublishState.stepAt step.1.2 with fresh := ⟨toString step.2, .unixEpoch⟩ })

/-- A request is published and flushed.  The broker restarts, and another request
is published and flushed. -/
def publishAndRestart : List ClusterLabel :=
  .node 0 (.publish Broker.hiRequest) ::
    taskSteps 0 (List.replicate 5 (1, 0) ++ List.replicate 11 (0, 10 * 10 ^ 6)) ++
    .restart 0 :: .node 0 (.publish { Broker.hiRequest with payload := "ho" }) ::
    taskSteps 16 (List.replicate 5 (2, 20 * 10 ^ 6) ++ List.replicate 11 (0, 40 * 10 ^ 6))

/-- The offsets of what was stored, with the numbers of the tasks. -/
def storedOffsets (n : Node) : List (Nat × Int64) :=
  n.stored.map fun entry => (entry.1.tag, entry.2)

/-- The offsets of the answers with success. -/
def answeredOffsets (n : Node) : List (Nat × Int64) :=
  (n.responses.filter fun entry => entry.2.success).map fun entry => (entry.1.tag, entry.2.offset)

/-- Neither of the two answers identifies its message. -/
theorem publishAndRestart_never_identified :
    Along step FreshIds alone publishAndRestart ∧
      (publishAndRestart.foldl step alone).nodes.map answeredOffsets = [[(1, 0), (2, 0)]] ∧
      Always step (fun c => ∀ a n t r, c.nodes[a]? = some n → (t, r) ∈ n.responses →
        r.success = true → ¬ c.Identified a t r) alone publishAndRestart :=
  ⟨by decide +kernel, by decide +kernel,
    never_identified [(0, 1, fun _ => [])] publishAndRestart (by decide +kernel)⟩

/-- Not even the offset is right after the restart: the second message is stored
at offset one, and the answer says zero. -/
theorem publishAndRestart_wrong_offset :
    (publishAndRestart.foldl step alone).nodes.map storedOffsets = [[(1, 0), (2, 1)]] ∧
      (publishAndRestart.foldl step alone).nodes.map answeredOffsets = [[(1, 0), (2, 0)]] ∧
      ¬ Always step (fun c => ∀ a n t r, c.nodes[a]? = some n → (t, r) ∈ n.responses →
        r.success = true → c.Identified a t r) alone publishAndRestart := by
  have hstored : (publishAndRestart.foldl step alone).nodes.map storedOffsets =
      [[(1, 0), (2, 1)]] := by decide +kernel
  have hanswered : (publishAndRestart.foldl step alone).nodes.map answeredOffsets =
      [[(1, 0), (2, 0)]] := by decide +kernel
  have hcalls : (publishAndRestart.foldl step alone).calls = [] := by decide +kernel
  refine ⟨hstored, hanswered, fun h => ?_⟩
  have hlast := h.last
  generalize publishAndRestart.foldl step alone = c at hstored hanswered hcalls hlast
  obtain ⟨n, hn, hresponses⟩ := List.map_eq_singleton_iff.mp hanswered
  have hzero : c.nodes[0]? = some n := by
    rw [hn]
    rfl
  -- the answer to the second request
  have hmem : ((2 : Nat), (0 : Int64)) ∈ answeredOffsets n := by
    rw [hresponses]
    exact List.mem_cons_of_mem _ (List.mem_singleton_self _)
  obtain ⟨⟨t, r⟩, hr, heq⟩ := List.mem_map.mp hmem
  obtain ⟨hr, hsuccess⟩ := List.mem_filter.mp hr
  obtain ⟨htag, hoffset⟩ := Prod.mk.inj heq
  obtain ⟨b, m, t', hcarries, hm, -, hentry, -⟩ := hlast 0 n t r hzero hr hsuccess
  -- nothing was forwarded, so the request is the one that was stored here
  have hown : b = 0 ∧ t' = t := by
    rcases hcarries with hown | ⟨call, hcall, -⟩
    · exact hown
    · rw [hcalls] at hcall
      cases hcall
  obtain ⟨rfl, rfl⟩ := hown
  obtain rfl : n = m := Option.some.inj (hzero.symm.trans hm)
  have hlisted : ((2 : Nat), (0 : Int64)) ∈ storedOffsets n :=
    List.mem_map.mpr ⟨_, hentry, Prod.ext htag hoffset⟩
  rw [hn] at hstored
  rw [List.singleton_injective hstored] at hlisted
  exact absurd hlisted (by decide)

end Cluster

end Rafka
