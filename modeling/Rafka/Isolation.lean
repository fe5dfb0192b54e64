/-
Rafka/Isolation.lean

What consumers of a topic get (`Broker::consume` and `MessageStream::poll_next` in
`crates/broker/src/broker.rs`, and `Consumer::consume` in
`crates/consumer/src/consumer.rs`).

There is one channel for the whole partition.  A stream passes on whatever is
sent on it, and the consumer hands everything to the application and reports its
offset for the topic that it asked for.  Nothing looks at the topic of a
response.  Moreover the response for a batch carries the framing of the batch and
not the payload of the message it is made for.

Main result (`isolated_of_addressed`): in a run in which every response is sent
while all streams on its channel are for its topic, and carries the payload of
its own message if there are any, all records are messages of the topic and all
reported offsets are offsets of messages of the topic.  `append` is one step that
returns, as in `Rafka.Serve`.
-/
import Rafka.Serve

namespace Rafka

namespace Node

/-! ### What is to hold -/

/-- The message was published, here or through another broker. -/
def Published (n : Node) (t : Tagged) : Prop :=
  ∃ task, n.tasks[t.tag]? = some task ∧ task.message t.tag = some t

/-- What consumers of a topic have been handed are messages of that topic, and
what they have reported are offsets of messages of that topic which they
received. -/
structure Isolated (n : Node) : Prop where
  records : ∀ st ∈ n.streams, ∀ record ∈ st.records,
    ∃ t, n.Published t ∧ t.req.topic = st.req.topic ∧ t.req.payload = record
  offsets : ∀ st ∈ n.streams, ∀ offset ∈ st.offsets, ∃ delivery ∈ st.received,
    delivery.response.offset = offset ∧ n.Published delivery.request ∧
      delivery.request.req.topic = st.req.topic ∧ (delivery.request, offset) ∈ n.stored

/-- The response may go to the streams on the channel: they are for its topic, and
it carries the payload of its message. -/
def suits (n : Node) (sender : Channel) (delivery : Delivery) : Bool :=
  n.streams.all fun st =>
    !(st.isOpen && st.channel = sender.id) ||
      (st.req.topic = delivery.request.req.topic &&
        delivery.response.payload = delivery.request.req.payload)

/-- If the step sends a response, it suits the streams on its channel. -/
def addressed (n : Node) : NodeLabel → Bool
  | .task i _ =>
      match n.tasks[i]? with
      | some task =>
          match (task.hand i).delivery with
          | some (delivery, some sender) => n.suits sender delivery
          | _ => true
      | none => true
  | _ => true

/-! ### Requests and responses -/

/-- The message can be stored. -/
def Ready (n : Node) (t : Tagged) : Prop := n.Published t ∧ t.req.topic ∈ n.topics

/-- The response is for a message that was published and stored. -/
def Genuine (n : Node) (delivery : Delivery) : Prop :=
  n.Published delivery.request ∧ (delivery.request, delivery.response.offset) ∈ n.stored

/-- The response is for a message of the topic, and carries its payload. -/
def Suited (n : Node) (topic : String) (delivery : Delivery) : Prop :=
  n.Genuine delivery ∧ delivery.request.req.topic = topic ∧
    delivery.response.payload = delivery.request.req.payload

/-- The response that the consumer is working on. -/
def delivery? : ClientPhase → Option Delivery
  | .handOver delivery | .acknowledge delivery | .updateOffset delivery => some delivery
  | .receive | .ended => none

/-- A stream has got responses for its topic only, and the consumer has used
those that it received. -/
structure StreamOk (n : Node) (st : Stream) : Prop where
  buffer : ∀ delivery ∈ st.buffer, n.Suited st.req.topic delivery
  received : ∀ delivery ∈ st.received, n.Suited st.req.topic delivery
  current : ∀ delivery, delivery? st.client = some delivery → delivery ∈ st.received
  records : ∀ record ∈ st.records, ∃ delivery ∈ st.received, delivery.response.payload = record
  offsets : ∀ offset ∈ st.offsets, ∃ delivery ∈ st.received, delivery.response.offset = offset

/-- What waits in the batcher can be stored, and the streams are in order. -/
structure Orderly (n : Node) : Prop where
  pending : ∀ t ∈ n.batcher.pending, n.Ready t
  logs : ∀ topic ∈ n.topics, n.broker.storage.log? topic n.broker.partition ≠ none
  room : 0 < n.batcher.batchSize
  streams : ∀ st ∈ n.streams, n.StreamOk st

/-- What a task has in its hands can be stored, or has been. -/
structure HandReady (n : Node) (h : Hand) : Prop where
  requests : ∀ t ∈ h.requests, n.Ready t
  delivery : ∀ delivery target, h.delivery = some (delivery, target) → n.Genuine delivery

/-- More is published, stored and known. -/
structure Grows (n n' : Node) : Prop where
  published : ∀ t, n.Published t → n'.Published t
  topics : n.topics ⊆ n'.topics
  stored : n.stored ⊆ n'.stored

variable {n n' : Node} {h : Hand} {st : Stream}

/-- What is published, stored and known stays. -/
theorem grows_of_eq (htasks : n'.tasks = n.tasks) (htopics : n'.topics = n.topics)
    (hstored : n'.stored = n.stored) : Grows n n' := by
  refine ⟨fun t ht => ?_, ?_, ?_⟩
  · rw [Published, htasks]
    exact ht
  · rw [htopics]
  · rw [hstored]
    exact List.Subset.refl _

theorem Ready.mono {t : Tagged} (hready : n.Ready t) (hgrows : Grows n n') : n'.Ready t :=
  ⟨hgrows.published t hready.1, hgrows.topics hready.2⟩

theorem Genuine.mono {delivery : Delivery} (hgenuine : n.Genuine delivery)
    (hgrows : Grows n n') : n'.Genuine delivery :=
  ⟨hgrows.published _ hgenuine.1, hgrows.stored hgenuine.2⟩

theorem Suited.mono {topic : String} {delivery : Delivery} (hsuited : n.Suited topic delivery)
    (hgrows : Grows n n') : n'.Suited topic delivery :=
  ⟨hsuited.1.mono hgrows, hsuited.2⟩

theorem HandReady.mono (hhand : n.HandReady h) (hgrows : Grows n n') : n'.HandReady h where
  requests t ht := (hhand.requests t ht).mono hgrows
  delivery d target hd := (hhand.delivery d target hd).mono hgrows

theorem StreamOk.mono (hst : n.StreamOk st) (hgrows : Grows n n') : n'.StreamOk st where
  buffer d hd := (hst.buffer d hd).mono hgrows
  received d hd := (hst.received d hd).mono hgrows
  current := hst.current
  records := hst.records
  offsets := hst.offsets

theorem handReady_ofRequests {requests : List Tagged} (h : ∀ t ∈ requests, n.Ready t) :
    n.HandReady (.ofRequests requests) :=
  ⟨h, by rintro _ _ ⟨⟩⟩

theorem handReady_empty (n : Node) : n.HandReady .empty :=
  handReady_ofRequests (by rintro t ⟨⟩)

/-- Nothing grows but what is needed, and the logs and the batcher stay. -/
theorem Orderly.mono (hord : n.Orderly) (hgrows : Grows n n') (htopics : n'.topics = n.topics)
    (hstorage : n'.broker.storage = n.broker.storage)
    (hpartition : n'.broker.partitionId = n.broker.partitionId)
    (hbatcher : n'.batcher = n.batcher) (hstreams : n'.streams = n.streams) : n'.Orderly where
  pending t ht := (hord.pending t (hbatcher ▸ ht)).mono hgrows
  logs topic htopic := by
    rw [hstorage, Broker.partition, hpartition]
    exact hord.logs topic (htopics ▸ htopic)
  room := hbatcher ▸ hord.room
  streams st hst := (hord.streams st (hstreams ▸ hst)).mono hgrows

/-- A message whose topic exists is stored. -/
theorem Orderly.store_ne_none (hord : n.Orderly) {t : Tagged} (ht : n.Ready t) :
    n.store t ≠ (none, n') := by
  intro hnone
  exact hord.logs _ ht.2 (store_eq_none hnone).1

/-! ### Steps of the tasks -/

theorem topics_ensureTopic (n : Node) (topic : String) :
    (n.ensureTopic topic).topics = insert topic n.topics := by
  unfold ensureTopic
  split
  · rename_i hmem
    exact (Finset.insert_eq_of_mem hmem).symm
  · rfl

theorem grows_ensureTopic (n : Node) (topic : String) : Grows n (n.ensureTopic topic) := by
  refine ⟨fun t ht => ?_, ?_, ?_⟩
  · rw [Published, tasks_ensureTopic]
    exact ht
  · rw [topics_ensureTopic]
    exact Finset.subset_insert topic n.topics
  · unfold ensureTopic
    split <;> exact List.Subset.refl _

/-- A topic that exists has a log. -/
theorem Orderly.ensureTopic (hord : n.Orderly) (topic : String) :
    (n.ensureTopic topic).Orderly := by
  have hgrows := grows_ensureTopic n topic
  unfold Node.ensureTopic at hgrows ⊢
  split at hgrows
  · rename_i hmem
    rw [if_pos hmem]
    exact hord
  · rename_i hmem
    rw [if_neg hmem]
    refine ⟨fun t ht => (hord.pending t ht).mono hgrows, ?_, hord.room,
      fun st hst => (hord.streams st hst).mono hgrows⟩
    intro topic' htopic'
    have hexists : ((n.broker.storage.createTopic topic).topics.lookup topic).isSome = true := by
      simp [LogStore.createTopic]
    show ((n.broker.storage.createTopic topic).createPartition topic n.broker.partition
      (n.recovered topic)).log? topic' n.broker.partition ≠ none
    rw [LogStore.createPartition, LogStore.log?_setLog, hexists, LogStore.log?_createTopic]
    by_cases heq : topic' = topic
    · rw [if_pos ⟨heq, rfl, rfl⟩]
      exact Option.some_ne_none _
    · rw [if_neg fun hand => heq hand.1, if_neg heq]
      exact hord.logs topic' (Finset.mem_of_mem_insert_of_ne htopic' heq)

/-- What a step of a task is to keep. -/
structure KeepsOrder (n n' : Node) (h' : Hand) : Prop where
  grows : Grows n n'
  orderly : n'.Orderly
  own : n'.HandReady h'

/-- A message is stored. -/
theorem Orderly.store (hord : n.Orderly) {t : Tagged} {offset : Int64}
    (hstore : n.store t = (some offset, n')) :
    Grows n n' ∧ n'.Orderly ∧ (t, offset) ∈ n'.stored := by
  obtain rfl := store_eq_some hstore
  have hgrows : Grows n { n with
      broker := { n.broker with
        storage := (n.broker.storage.append t.req.topic n.broker.partition
          (utf8 t.req.payload)).2 }
      stored := n.stored ++ [(t, offset)] } :=
    ⟨fun _ ht => ht, Finset.Subset.refl _, List.subset_append_left _ _⟩
  refine ⟨hgrows, ?_, List.mem_append_right _ (List.mem_singleton_self _)⟩
  refine ⟨fun u hu => (hord.pending u hu).mono hgrows, ?_, hord.room,
    fun st hst => (hord.streams st hst).mono hgrows⟩
  intro topic htopic
  show (n.broker.storage.append t.req.topic n.broker.partition
    (utf8 t.req.payload)).2.log? topic n.broker.partition ≠ none
  rw [LogStore.log?_append]
  split
  · rename_i heq
    obtain ⟨log, hlog⟩ := Option.ne_none_iff_exists'.mp (hord.logs topic htopic)
    rw [← heq.1, hlog]
    exact Option.some_ne_none _
  · exact hord.logs topic htopic

theorem StreamOk.push (hst : n.StreamOk st) {delivery : Delivery}
    (hsuited : n.Suited st.req.topic delivery) : n.StreamOk (st.push delivery) := by
  -- what is dropped does not matter
  have hbuffer : ∀ buffer : List Delivery, buffer ⊆ st.buffer →
      ∀ d ∈ buffer ++ [delivery], n.Suited st.req.topic d := by
    intro buffer hsub d hd
    rcases List.mem_append.mp hd with hold | hnew
    · exact hst.buffer d (hsub hold)
    · rw [List.mem_singleton.mp hnew]
      exact hsuited
  unfold Stream.push
  split
  · exact ⟨hbuffer _ (List.Subset.refl _), hst.received, hst.current, hst.records, hst.offsets⟩
  · exact ⟨hbuffer _ (List.tail_subset _), hst.received, hst.current, hst.records, hst.offsets⟩

theorem Orderly.send (hord : n.Orderly) {sender : Channel} {delivery : Delivery}
    (hgenuine : n.Genuine delivery) (hsuits : n.suits sender delivery = true) :
    (n.send sender delivery).Orderly := by
  have hgrows : Grows n (n.send sender delivery) := grows_of_eq rfl rfl rfl
  refine ⟨fun t ht => (hord.pending t ht).mono hgrows, hord.logs, hord.room, ?_⟩
  intro st' hst'
  obtain ⟨st, hst, rfl⟩ := List.mem_map.mp hst'
  have hok := hord.streams st hst
  split
  · rename_i hattached
    have hall := List.all_eq_true.mp hsuits st hst
    simp only [hattached.1, hattached.2, decide_true, Bool.and_self, Bool.not_true,
      Bool.false_or, Bool.and_eq_true, decide_eq_true_eq] at hall
    exact (hok.push ⟨hgenuine, hall.1.symm, hall.2⟩).mono hgrows
  · exact hok.mono hgrows

theorem Orderly.openStream (hord : n.Orderly) (req : ConsumeRequest) (sender : Channel) :
    (n.openStream req sender).Orderly := by
  have hgrows : Grows n (n.openStream req sender) := grows_of_eq rfl rfl rfl
  refine ⟨fun t ht => (hord.pending t ht).mono hgrows, hord.logs, hord.room, ?_⟩
  intro st hst
  rcases List.mem_append.mp hst with hold | hnew
  · exact (hord.streams st hold).mono hgrows
  · rw [List.mem_singleton.mp hnew]
    exact ⟨by rintro d ⟨⟩, by rintro d ⟨⟩, by rintro d ⟨⟩, by rintro r ⟨⟩, by rintro o ⟨⟩⟩

theorem Orderly.acquire (hord : n.Orderly) {task : Task} {channel : Broker → Channel × Broker}
    (hch : Channeling task channel) : (n.acquire channel).2.Orderly := by
  have hframe := channelFrame_of_channeling hch
  exact hord.mono (grows_of_eq rfl rfl rfl) rfl (hframe.storage _) (hframe.partitionId _) rfl rfl

theorem Orderly.addMessage (hord : n.Orderly) {t : Tagged} {now : Instant}
    {batcher : BatchedProcessor Tagged} (hadd : n.batcher.addMessage t now = .ok batcher)
    (ht : n.Ready t) : ({ n with batcher := batcher } : Node).Orderly := by
  have hgrows : Grows n { n with batcher := batcher } := grows_of_eq rfl rfl rfl
  refine ⟨fun u hu => ?_, hord.logs, ?_, fun st hst => (hord.streams st hst).mono hgrows⟩
  · have hu' : u ∈ batcher.pending := hu
    rw [BatchedProcessor.pending_addMessage hord.room hadd] at hu'
    rcases List.mem_append.mp hu' with hold | hnew
    · exact (hord.pending u hold).mono hgrows
    · rw [List.mem_singleton.mp hnew]
      exact ht.mono hgrows
  · exact (BatchedProcessor.batchSize_addMessage hadd).symm ▸ hord.room

/-- What is popped was in the batcher, and the rest stays. -/
theorem Orderly.getReadyBatches (hord : n.Orderly) (now : Nat → Instant) :
    ({ n with batcher := (n.batcher.getReadyBatches now).2 } : Node).Orderly ∧
      ∀ t ∈ ((n.batcher.getReadyBatches now).1.map MessageBatch.messages).flatten,
        n.Ready t := by
  have hgrows : Grows n { n with batcher := (n.batcher.getReadyBatches now).2 } :=
    grows_of_eq rfl rfl rfl
  have hsplit := BatchedProcessor.flatMap_getReadyBatches n.batcher now
  rw [List.flatMap_def] at hsplit
  refine ⟨⟨fun u hu => ?_, hord.logs, hord.room, fun st hst => (hord.streams st hst).mono hgrows⟩,
    fun u hu => ?_⟩
  · exact (hord.pending u (hsplit ▸ List.mem_append_right _ hu)).mono hgrows
  · exact hord.pending u (hsplit ▸ List.mem_append_left _ hu)

/-- **Step lemma for the tasks.** -/
theorem Effect.keepsOrder {env : StepEnv} {i : Nat} {task : Task} {h' : Hand}
    (heffect : Effect env n i task h h' n') (hord : n.Orderly) (hhand : n.HandReady h)
    (hown : ∀ t, task.message i = some t → n.Published t)
    (hsuits : ∀ delivery sender, h.delivery = some (delivery, some sender) →
      n.suits sender delivery = true) : KeepsOrder n n' h' := by
  cases heffect with
  | ensureTopic hmessage =>
      rename_i t
      have hgrows := grows_ensureTopic n t.req.topic
      refine ⟨hgrows, hord.ensureTopic _, handReady_ofRequests fun u hu => ?_⟩
      rw [List.mem_singleton.mp hu]
      refine ⟨hgrows.published t (hown t hmessage), ?_⟩
      rw [topics_ensureTopic]
      exact Finset.mem_insert_self _ _
  | addMessage hadd =>
      rename_i t batcher
      have ht : n.Ready t := hhand.requests t (List.mem_singleton_self t)
      exact ⟨grows_of_eq rfl rfl rfl, hord.addMessage hadd ht, handReady_empty _⟩
  | getReadyBatches =>
      obtain ⟨hord', hpopped⟩ := hord.getReadyBatches env.now
      exact ⟨grows_of_eq rfl rfl rfl, hord', handReady_ofRequests hpopped⟩
  | pass processor hsub =>
      have hgrows : Grows n { n with
          broker := { n.broker with zeroCopyProcessor := processor } } := grows_of_eq rfl rfl rfl
      exact ⟨hgrows, hord.mono hgrows rfl rfl rfl rfl rfl,
        handReady_ofRequests fun u hu => (hhand.requests u (hsub hu)).mono hgrows⟩
  | respond counter hid =>
      rename_i t response
      have hgrows : Grows n { n with
          broker := { n.broker with messageCounter := counter }
          responses := n.responses ++ [(t, response)] } := grows_of_eq rfl rfl rfl
      exact ⟨hgrows, hord.mono hgrows rfl rfl rfl rfl rfl, handReady_empty _⟩
  | acquire hch hsub hsender =>
      rename_i requests requests' channel sender
      have hgrows : Grows n (n.acquire channel).2 := grows_of_eq rfl rfl rfl
      exact ⟨hgrows, hord.acquire hch,
        ⟨fun u hu => (hhand.requests u (hsub hu)).mono hgrows, by rintro _ _ ⟨⟩⟩⟩
  | acquireFor hch =>
      rename_i delivery channel
      have hgrows : Grows n (n.acquire channel).2 := grows_of_eq rfl rfl rfl
      refine ⟨hgrows, hord.acquire hch, ⟨by rintro u ⟨⟩, ?_⟩⟩
      rintro d target ⟨⟩
      exact (hhand.delivery delivery none rfl).mono hgrows
  | storeBatched hnext hstore =>
      rename_i t requests sender next payload offset
      have ht : n.Ready t := hhand.requests t List.mem_cons_self
      obtain ⟨hgrows, hord', hmem⟩ := hord.store hstore
      refine ⟨hgrows, hord', ⟨fun u hu => ?_, ?_⟩⟩
      · exact (hhand.requests u (List.mem_cons_of_mem _ hu)).mono hgrows
      · rintro d target ⟨⟩
        exact ⟨hgrows.published t ht.1, hmem⟩
  | countBatched counter hnext hstore =>
      exact absurd hstore (hord.store_ne_none (hhand.requests _ List.mem_cons_self))
  | storeDirect hstore =>
      rename_i t offset
      have ht : n.Ready t := hhand.requests t (List.mem_singleton_self t)
      obtain ⟨hgrows, hord', hmem⟩ := hord.store hstore
      refine ⟨hgrows, hord', ⟨by rintro u ⟨⟩, ?_⟩⟩
      rintro d target ⟨⟩
      exact ⟨hgrows.published t ht.1, hmem⟩
  | failDirect hstore =>
      exact absurd hstore (hord.store_ne_none (hhand.requests _ (List.mem_singleton_self _)))
  | send =>
      rename_i requests next sender delivery
      have hgrows : Grows n (n.send sender delivery) := grows_of_eq rfl rfl rfl
      have hgenuine := hhand.delivery delivery (some sender) rfl
      exact ⟨hgrows, hord.send hgenuine (hsuits delivery sender rfl),
        ⟨fun u hu => (hhand.requests u hu).mono hgrows, by rintro _ _ ⟨⟩⟩⟩
  | subscribe =>
      rename_i sender req
      exact ⟨grows_of_eq rfl rfl rfl, hord.openStream req sender, handReady_empty _⟩

/-! ### Steps of the broker -/

/-- Everything that waits, in the batcher, in the hands of a task or in a stream,
is in order. -/
structure InTopic (n : Node) : Prop where
  orderly : n.Orderly
  hands : ∀ (i : Nat) (task : Task), n.tasks[i]? = some task → n.HandReady (task.hand i)

theorem InTopic.isolated (hin : n.InTopic) : n.Isolated where
  records st hst record hrecord := by
    have hok := hin.orderly.streams st hst
    obtain ⟨delivery, hdelivery, hpayload⟩ := hok.records record hrecord
    obtain ⟨hgenuine, htopic, hown⟩ := hok.received delivery hdelivery
    exact ⟨delivery.request, hgenuine.1, htopic, by rw [← hown, hpayload]⟩
  offsets st hst offset hoffset := by
    have hok := hin.orderly.streams st hst
    obtain ⟨delivery, hdelivery, rfl⟩ := hok.offsets offset hoffset
    obtain ⟨hgenuine, htopic, -⟩ := hok.received delivery hdelivery
    exact ⟨delivery, hdelivery, rfl, hgenuine.1, htopic, hgenuine.2⟩

/-- Tasks that keep their requests keep what is published. -/
theorem grows_setTask {i : Nat} {task task' : Task} (hi : n.tasks[i]? = some task)
    (hmessage : task'.message i = task.message i) :
    Grows n { n with tasks := n.tasks.set i task' } := by
  refine ⟨?_, Finset.Subset.refl _, List.Subset.refl _⟩
  rintro t ⟨other, hother, ht⟩
  by_cases hj : i = t.tag
  · subst hj
    rw [hi] at hother
    cases hother
    exact ⟨task', by simp [List.getElem?_set_self (List.getElem?_eq_some_iff.mp hi).1],
      by rw [hmessage, ht]⟩
  · exact ⟨other, by simp [List.getElem?_set_ne hj, hother], ht⟩

theorem InTopic.task (hin : n.InTopic) {i : Nat} {env : StepEnv}
    (haddr : n.addressed (.task i env) = true) : (n.step (.task i env)).InTopic := by
  cases hi : n.tasks[i]? with
  | none =>
      simp only [step, hi]
      exact hin
  | some task =>
      have hown : ∀ t, task.message i = some t → n.Published t := by
        intro t ht
        have htag : t.tag = i := by
          cases task <;> cases ht <;> rfl
        exact ⟨task, by rw [htag, hi], by rw [htag, ht]⟩
      have hsuits : ∀ delivery sender, (task.hand i).delivery = some (delivery, some sender) →
          n.suits sender delivery = true := by
        intro delivery sender hdelivery
        simpa only [addressed, hi, hdelivery] using haddr
      have heffect := effect_stepTask env n i task
      have hstep := heffect.keepsOrder hin.orderly (hin.hands i task hi) hown hsuits
      have htasks := heffect.tasks_eq
      have hmessage := message_stepTask env n i task
      simp only [step, hi]
      generalize n.stepTask env i task = r at hstep htasks hmessage
      have hset : Grows r.2 { r.2 with tasks := r.2.tasks.set i r.1 } :=
        grows_setTask (by rw [htasks, hi]) hmessage
      refine ⟨hstep.orderly.mono hset rfl rfl rfl rfl rfl, fun j task' hj => ?_⟩
      rcases getElem?_set_cases hj with ⟨rfl, rfl⟩ | ⟨-, hold⟩
      · exact hstep.own.mono hset
      · have hold' : n.tasks[j]? = some task' := htasks ▸ hold
        exact ((hin.hands j task' hold').mono hstep.grows).mono hset

theorem InTopic.spawn (hin : n.InTopic) {task : Task} (hempty : ∀ i, task.hand i = .empty) :
    (n.spawn task).InTopic := by
  have hgrows : Grows n (n.spawn task) := by
    refine ⟨?_, Finset.Subset.refl _, List.Subset.refl _⟩
    rintro t ⟨other, hother, ht⟩
    exact ⟨other, by
      simp only [Node.spawn]
      rw [List.getElem?_append_left (List.getElem?_eq_some_iff.mp hother).1, hother], ht⟩
  refine ⟨hin.orderly.mono hgrows rfl rfl rfl rfl rfl, fun i task' hi => ?_⟩
  rcases getElem?_concat_cases hi with hold | ⟨rfl, rfl⟩
  · exact (hin.hands i task' hold).mono hgrows
  · rw [hempty]
    exact handReady_empty _

/-- A stream changes. -/
theorem InTopic.setStream (hin : n.InTopic) {i : Nat} {st' : Stream}
    (hstreams : n'.streams = n.streams.set i st') (hst' : n.StreamOk st')
    (hgrows : Grows n n') (htopics : n'.topics = n.topics)
    (hstorage : n'.broker.storage = n.broker.storage)
    (hpartition : n'.broker.partitionId = n.broker.partitionId)
    (hbatcher : n'.batcher = n.batcher) (htasks : n'.tasks = n.tasks) : n'.InTopic := by
  refine ⟨⟨fun t ht => ?_, fun topic htopic => ?_, hbatcher ▸ hin.orderly.room, fun st hst => ?_⟩,
    fun j task hj => (hin.hands j task (htasks ▸ hj)).mono hgrows⟩
  · exact (hin.orderly.pending t (hbatcher ▸ ht)).mono hgrows
  · rw [hstorage, Broker.partition, hpartition]
    exact hin.orderly.logs topic (htopics ▸ htopic)
  · rw [hstreams] at hst
    rcases List.mem_or_eq_of_mem_set hst with hold | rfl
    · exact (hin.orderly.streams st hold).mono hgrows
    · exact hst'.mono hgrows

theorem InTopic.closeStream (hin : n.InTopic) {i : Nat} {st' : Stream} (hst' : n.StreamOk st') :
    (n.closeStream i st').InTopic := by
  -- the receiver counts are part of the channels
  have hstorage : (n.closeStream i st').broker.storage = n.broker.storage := by
    simp only [Node.closeStream]
    split <;> rfl
  have hpartition : (n.closeStream i st').broker.partitionId = n.broker.partitionId := by
    simp only [Node.closeStream]
    split <;> rfl
  have hclosed : n.StreamOk { st' with isOpen := false } :=
    ⟨hst'.buffer, hst'.received, hst'.current, hst'.records, hst'.offsets⟩
  exact hin.setStream rfl hclosed (grows_of_eq rfl rfl rfl) rfl hstorage hpartition rfl rfl

/-- A response moves from the stream to the consumer. -/
theorem StreamOk.receive (hst : n.StreamOk st) {delivery : Delivery} {buffer : List Delivery}
    (hbuffer : st.buffer = delivery :: buffer) :
    n.StreamOk { st with
      buffer := buffer
      client := .handOver delivery
      received := st.received ++ [delivery] } := by
  have hfirst : n.Suited st.req.topic delivery := by
    apply hst.buffer
    rw [hbuffer]
    exact List.mem_cons_self
  have hmore : st.received ⊆ st.received ++ [delivery] := List.subset_append_left _ _
  refine ⟨fun d hd => ?_, fun d hd => ?_, ?_, fun record hrecord => ?_, fun offset hoffset => ?_⟩
  · apply hst.buffer
    rw [hbuffer]
    exact List.mem_cons_of_mem _ hd
  · rcases List.mem_append.mp hd with hold | hnew
    · exact hst.received d hold
    · rw [List.mem_singleton.mp hnew]
      exact hfirst
  · rintro d ⟨⟩
    exact List.mem_append_right _ (List.mem_singleton_self delivery)
  · obtain ⟨d, hd, hpayload⟩ := hst.records record hrecord
    exact ⟨d, hmore hd, hpayload⟩
  · obtain ⟨d, hd, hd'⟩ := hst.offsets offset hoffset
    exact ⟨d, hmore hd, hd'⟩

/-- The consumer hands over what it has received. -/
theorem StreamOk.handOver (hst : n.StreamOk st) {delivery : Delivery}
    (hcurrent : delivery ∈ st.received) (gone : Bool) :
    n.StreamOk { st with
      client := .acknowledge delivery
      records := if gone then st.records else st.records ++ [delivery.response.payload] } := by
  refine ⟨hst.buffer, hst.received, ?_, fun record hrecord => ?_, hst.offsets⟩
  · rintro d ⟨⟩
    exact hcurrent
  · simp only at hrecord
    split at hrecord
    · exact hst.records record hrecord
    · rcases List.mem_append.mp hrecord with hold | hnew
      · exact hst.records record hold
      · exact ⟨delivery, hcurrent, (List.mem_singleton.mp hnew).symm⟩

theorem StreamOk.acknowledge (hst : n.StreamOk st) {delivery : Delivery}
    (hcurrent : delivery ∈ st.received) :
    n.StreamOk { st with client := .updateOffset delivery } := by
  refine ⟨hst.buffer, hst.received, ?_, hst.records, hst.offsets⟩
  rintro d ⟨⟩
  exact hcurrent

/-- It reports the offset of what it has received. -/
theorem StreamOk.updateOffset (hst : n.StreamOk st) {delivery : Delivery}
    (hcurrent : delivery ∈ st.received) :
    n.StreamOk { st with
      client := .receive
      offsets := st.offsets ++ [delivery.response.offset] } := by
  refine ⟨hst.buffer, hst.received, by rintro d ⟨⟩, hst.records, fun offset hoffset => ?_⟩
  rcases List.mem_append.mp hoffset with hold | hnew
  · exact hst.offsets offset hold
  · exact ⟨delivery, hcurrent, (List.mem_singleton.mp hnew).symm⟩

/-- **Step lemma for the consumers.** -/
theorem InTopic.stepClient (hin : n.InTopic) {i : Nat} (hst : n.StreamOk st) (gone : Bool) :
    (n.stepClient i st gone).InTopic := by
  have hcurrent : ∀ delivery, delivery? st.client = some delivery → delivery ∈ st.received :=
    hst.current
  unfold Node.stepClient
  split
  · split
    · exact hin.closeStream ⟨hst.buffer, hst.received, by rintro d ⟨⟩, hst.records, hst.offsets⟩
    · split
      · exact hin
      · rename_i delivery buffer hbuffer
        exact hin.setStream rfl (hst.receive hbuffer) (grows_of_eq rfl rfl rfl) rfl rfl rfl rfl rfl
  · rename_i delivery hclient
    rw [hclient] at hcurrent
    exact hin.setStream rfl (hst.handOver (hcurrent delivery rfl) gone) (grows_of_eq rfl rfl rfl)
      rfl rfl rfl rfl rfl
  · rename_i delivery hclient
    rw [hclient] at hcurrent
    exact hin.setStream rfl (hst.acknowledge (hcurrent delivery rfl)) (grows_of_eq rfl rfl rfl)
      rfl rfl rfl rfl rfl
  · rename_i delivery hclient
    rw [hclient] at hcurrent
    have hok := hst.updateOffset (hcurrent delivery rfl)
    -- whether the broker takes the report or not
    unfold Node.updateOffset
    split
    · exact hin.setStream rfl hok (grows_of_eq rfl rfl rfl) rfl rfl rfl rfl rfl
    · split
      · exact hin.setStream rfl hok (grows_of_eq rfl rfl rfl) rfl rfl rfl rfl rfl
      · exact hin.setStream rfl hok (grows_of_eq rfl rfl rfl) rfl rfl rfl rfl rfl
  · exact hin

/-- **Step lemma.** -/
theorem InTopic.step (hin : n.InTopic) (label : NodeLabel)
    (haddr : n.addressed label = true) : (n.step label).InTopic := by
  cases label with
  | publish req =>
      apply hin.spawn
      intro i
      split <;> rfl
  | forwardMessage req => exact hin.spawn fun _ => rfl
  | consume req => exact hin.spawn fun _ => rfl
  | subscribe topic =>
      refine ⟨hin.orderly.ensureTopic topic, fun i task hi => ?_⟩
      rw [Node.step, tasks_ensureTopic] at hi
      exact (hin.hands i task hi).mono (grows_ensureTopic n topic)
  | task i env => exact hin.task haddr
  | client i gone =>
      simp only [Node.step]
      split
      · rename_i st hi
        exact hin.stepClient (hin.orderly.streams st (List.mem_of_getElem? hi)) gone
      · exact hin
  | close i =>
      simp only [Node.step]
      split
      · rename_i st hi
        exact hin.closeStream (hin.orderly.streams st (List.mem_of_getElem? hi))
      · exact hin

theorem inTopic_start (partitionId totalPartitions : UInt32) (recovered : String → Log) :
    (start partitionId totalPartitions recovered).InTopic where
  orderly := {
    pending := by rintro t ⟨⟩
    logs := by rintro topic ⟨⟩
    room := Nat.zero_lt_succ 99
    streams := by rintro st ⟨⟩ }
  hands i task hi := by
    cases i with
    | zero =>
        cases hi
        exact handReady_empty _
    | succ i => cases hi

/-- **Consumers of a topic get messages of that topic** in a run in which every
response is sent while all streams on its channel are for its topic, and carries
the payload of its own message if there are any. -/
theorem isolated_of_addressed (partitionId totalPartitions : UInt32)
    (recovered : String → Log) (labels : List NodeLabel)
    (haddr : Along step (fun n label => n.addressed label = true)
      (start partitionId totalPartitions recovered) labels) :
    Always step Isolated (start partitionId totalPartitions recovered) labels :=
  (Always.of_along (inTopic_start partitionId totalPartitions recovered) haddr
    fun _ label hin hlabel => hin.step label hlabel).mono fun _ hin => hin.isolated

/-- A consumer of `topic` opens a stream, a message is forwarded to the topic `t`,
and the consumer reads it. -/
def forwardTo (topic : String) : List NodeLabel :=
  .consume ⟨"consumer", topic, ""⟩ :: List.replicate 2 (.task 1 (PublishState.stepAt 0)) ++
    .forwardMessage ⟨"t", "k", "hi", 0⟩ :: List.replicate 5 (.task 2 (PublishState.stepAt 0)) ++
    List.replicate 4 (.client 0 false)

/-- A consumer of `t` gets it and reports its offset. -/
theorem forwardTo_isolated :
    Along step (fun n label => n.addressed label = true) (start 0 1 fun _ => [])
        (forwardTo "t") ∧
      Always step Isolated (start 0 1 fun _ => []) (forwardTo "t") ∧
      ((forwardTo "t").foldl step (start 0 1 fun _ => [])).streams.map
        (fun st => (st.records, st.offsets)) = [(["hi"], [0])] :=
  ⟨by decide, isolated_of_addressed 0 1 (fun _ => []) (forwardTo "t") (by decide), by decide⟩

/-- What was published. -/
def messages (n : Node) : List Tagged :=
  (List.range n.tasks.length).filterMap fun i => n.tasks[i]?.bind fun task => task.message i

theorem mem_messages {t : Tagged} (ht : n.Published t) : t ∈ n.messages := by
  obtain ⟨task, htask, hmessage⟩ := ht
  refine List.mem_filterMap.mpr ⟨t.tag, ?_, ?_⟩
  · exact List.mem_range.mpr (List.getElem?_eq_some_iff.mp htask).1
  · rw [htask, Option.bind_some, hmessage]

/-- A consumer of `u` gets it, too, although nothing was published to `u`. -/
theorem forwardTo_reaches_other_topic :
    ((forwardTo "u").foldl step (start 0 1 fun _ => [])).streams.map
        (fun st => (st.req.topic, st.records, st.offsets)) = [("u", ["hi"], [0])] ∧
      ¬ Always step Isolated (start 0 1 fun _ => []) (forwardTo "u") := by
  have hstreams : ((forwardTo "u").foldl step (start 0 1 fun _ => [])).streams.map
      (fun st => (st.req.topic, st.records, st.offsets)) = [("u", ["hi"], [0])] := by decide
  have hmessages : ((forwardTo "u").foldl step (start 0 1 fun _ => [])).messages =
      [⟨2, "", "t", "k", "hi"⟩] := by decide
  refine ⟨hstreams, fun h => ?_⟩
  have hlast := h.last
  generalize (forwardTo "u").foldl step (start 0 1 fun _ => []) = n
    at hstreams hmessages hlast
  have hmem : ("u", ["hi"], [(0 : Int64)]) ∈
      n.streams.map fun st => (st.req.topic, st.records, st.offsets) := by
    rw [hstreams]
    exact List.mem_singleton_self _
  obtain ⟨st, hst, heq⟩ := List.mem_map.mp hmem
  obtain ⟨htopic, hrest⟩ := Prod.mk.inj heq
  obtain ⟨hrecords, -⟩ := Prod.mk.inj hrest
  obtain ⟨t, hpublished, ht, -⟩ := hlast.records st hst "hi" (by simp [hrecords])
  -- the only message was published to `t`
  have hmine := mem_messages hpublished
  rw [hmessages, List.mem_singleton] at hmine
  rw [hmine, htopic] at ht
  exact absurd ht (by decide)

end Node

end Rafka
