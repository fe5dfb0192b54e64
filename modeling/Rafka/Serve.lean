/-
Rafka/Serve.lean

A broker that serves producers, consumers and other brokers
(`crates/broker/src/broker.rs`, with the consume loop of
`crates/consumer/src/consumer.rs` at the other end of a stream).

Every request is a task of its own, and the flusher is one more; they share the
batcher, the framing buffers, the storage and the channel of the partition.  A
task moves by one operation on these at a time: a lookup or replacement of the
channel, an append, a `send`, a subscription.  So a response that is to be sent
and the sender it is to be sent on are part of the state of its task.

A stream has the receiver on the broker's side and the loop of the consumer that
reads it.  Appends, sends and answers are recorded, so that one can say which
request a response was made for and when its message was stored.

As in `Rafka.Publish`, the files of the partitions can be recovered, a handler runs
to its end (its future is not dropped), and `append` is one step that returns.
-/
import Rafka.Publish

namespace Rafka

/-! ### Requests -/

/-- `ForwardMessageRequest`, without what nobody reads. -/
structure ForwardMessageRequest where
  topic : String
  key : String
  payload : String
  targetPartition : Int32
deriving DecidableEq

/-- The message that is forwarded. -/
def ForwardMessageRequest.message (req : ForwardMessageRequest) : PublishRequest where
  producerId := ""
  topic := req.topic
  key := req.key
  payload := req.payload

/-- `ForwardMessageResponse`. -/
structure ForwardMessageResponse where
  success : Bool
  message : String
  offset : Int64
deriving DecidableEq

/-- `ConsumeRequest`. -/
structure ConsumeRequest where
  id : String
  topic : String
  groupId : String
deriving DecidableEq

/-- A response for consumers, with the request it is made for and the number of
the append that stored its message. -/
structure Delivery where
  request : Tagged
  response : ConsumeResponse
  append : Option Nat
deriving DecidableEq

/-! ### Tasks -/

/-- Where the processing of a batch is. -/
inductive Stage
  /-- In the call of `ZeroCopyProcessor::process_batch`. -/
  | framing (messages : List Tagged) (call : FramingCall)
  /-- Before the next turn of the loop. -/
  | loop (sender : Channel) (todo : List (Tagged × List UInt8))
  /-- In the loop, before the `send`. -/
  | send (sender : Channel) (delivery : Delivery) (todo : List (Tagged × List UInt8))

/-- Popped batches: the one being processed and those to come. -/
structure Drain where
  current : Option Stage
  queue : List (List Tagged)

/-- All batches are processed. -/
def Drain.isDone (d : Drain) : Bool := d.current.isNone && d.queue.isEmpty

/-- Where a message is that is stored and sent without batching. -/
inductive Direct
  | append
  | ensureChannel (delivery : Delivery)
  | send (sender : Channel) (delivery : Delivery)
  | sent (delivery : Delivery)
  /-- The storage has no such partition. -/
  | failed

/-- Where a call of `publish` is. -/
inductive PublishPhase
  | ensureTopic
  | addMessage
  /-- In `process_single_message`. -/
  | single (direct : Direct)
  | getReadyBatches
  | processing (drain : Drain)
  | respond
  /-- In `forward_message_to_partition`, before and after the call of
  `forward_message` on the other broker. -/
  | forward (targetPartition : UInt32)
  | forwarded (targetPartition : UInt32)
  | returned
  /-- The broker has gone down. -/
  | lost

/-- Where a call of `forward_message` is. -/
inductive ForwardPhase
  | checkPartition
  | ensureTopic
  | direct (direct : Direct)
  | returned (result : Except String ForwardMessageResponse)
  | lost

/-- Where a call of `consume` is. -/
inductive ConsumePhase
  | ensureChannel
  | subscribe (sender : Channel)
  | returned
  | lost

/-- What runs on a broker. -/
inductive Task
  | flusher (drain : Drain)
  | publish (req : PublishRequest) (phase : PublishPhase)
  | forwardMessage (req : ForwardMessageRequest) (phase : ForwardPhase)
  | consume (req : ConsumeRequest) (phase : ConsumePhase)

/-! ### Streams -/

/-- Where the loop of `Consumer::consume` is. -/
inductive ClientPhase
  | receive
  | handOver (delivery : Delivery)
  | acknowledge (delivery : Delivery)
  | updateOffset (delivery : Delivery)
  | ended

/-- A stream and the consumer that reads it.  `records` are the payloads handed
to the application, `offsets` those that were reported. -/
structure Stream where
  req : ConsumeRequest
  /-- The channel that the receiver is attached to. -/
  channel : Nat
  /-- How many messages had been stored when `consume` returned. -/
  openedAt : Nat
  /-- How many responses had been sent then. -/
  sentBefore : Nat
  isOpen : Bool
  buffer : List Delivery
  lagged : Bool
  client : ClientPhase
  received : List Delivery
  records : List String
  offsets : List Int64

/-- `BROADCAST_CAPACITY`. -/
def broadcastCapacity : Nat := 1024 * 64

/-- A response arrives at the receiver.  If there is no room, the oldest one is
dropped. -/
def Stream.push (st : Stream) (delivery : Delivery) : Stream :=
  if st.buffer.length < broadcastCapacity then { st with buffer := st.buffer ++ [delivery] }
  else { st with buffer := st.buffer.tail ++ [delivery], lagged := true }

/-! ### The broker -/

/-- The receiver count of a channel changes. -/
def Broker.countReceivers (b : Broker) (channel : Nat) (f : Nat → Nat) : Broker :=
  { b with
    channels := HashMap.modify b.partitionId
      (fun c => if c.id = channel then { c with receiverCount := f c.receiverCount } else c)
      b.channels }

/-- A broker with everything that runs on it.  `stored` records the appends,
`deliveries` the calls of `send`, and `responses` the answers of `publish`. -/
structure Node where
  broker : Broker
  totalPartitions : UInt32
  /-- The keys of `Broker::topics`. -/
  topics : Finset String
  consumerOffsets : HashMap (String × String) Int64
  batcher : BatchedProcessor Tagged
  tasks : List Task
  streams : List Stream
  /-- What the files of the partitions held when the broker came up. -/
  recovered : String → Log
  stored : List (Tagged × Int64)
  deliveries : List (Channel × Delivery)
  responses : List (Tagged × PublishResponse)

namespace Node

/-- A broker as `Broker::new` makes it, with its flusher. -/
def start (partitionId totalPartitions : UInt32) (recovered : String → Log) : Node where
  broker := (PublishState.start partitionId totalPartitions recovered).broker
  totalPartitions := totalPartitions
  topics := ∅
  consumerOffsets := ∅
  batcher := (PublishState.start partitionId totalPartitions recovered).batcher
  tasks := [.flusher ⟨none, []⟩]
  streams := []
  recovered := recovered
  stored := []
  deliveries := []
  responses := []

/-- `Broker::ensure_topic`, as one step. -/
def ensureTopic (n : Node) (topic : String) : Node :=
  if topic ∈ n.topics then n
  else
    let storage := (n.broker.storage.createTopic topic).createPartition topic
      n.broker.partition (n.recovered topic)
    { n with
      topics := insert topic n.topics
      broker := { n.broker with storage := storage } }

/-- Get a sender for the partition. -/
def acquire (n : Node) (channel : Broker → Channel × Broker) : Channel × Node :=
  let (sender, broker) := channel n.broker
  (sender, { n with broker := broker })

/-- `self.storage.append` on the broker's own partition, recorded. -/
def store (n : Node) (t : Tagged) : Option Int64 × Node :=
  match n.broker.store t.req with
  | (some offset, broker) =>
      (some offset, { n with broker := broker, stored := n.stored ++ [(t, offset)] })
  | (none, broker) => (none, { n with broker := broker })

/-- `sender.send`: every receiver attached to the channel gets the response. -/
def send (n : Node) (sender : Channel) (delivery : Delivery) : Node :=
  { n with
    broker := n.broker.send sender delivery.response
    streams := n.streams.map fun st =>
      if st.isOpen ∧ st.channel = sender.id then st.push delivery else st
    deliveries := n.deliveries ++ [(sender, delivery)] }

/-- The response for a message that has got `offset`. -/
def consumeResponse (n : Node) (fresh : Fresh) (topic payload : String) (offset : Int64) :
    ConsumeResponse where
  messageId := fresh.messageId
  topic := topic
  payload := payload
  sentAt := Int64.ofNat fresh.now.secs
  offset := offset
  partition := n.broker.partition

/-! ### Steps of the tasks -/

/-- The next operation on popped batches.  A message that cannot be stored takes
its offset from the message counter. -/
def stepDrain (channel : Broker → Channel × Broker) (fresh : Fresh) (n : Node) (d : Drain) :
    Drain × Node :=
  match d.current with
  | none =>
      match d.queue with
      | [] => (d, n)
      | messages :: queue =>
          if messages.isEmpty then (⟨none, queue⟩, n)
          else
            let call := FramingCall.invoke n.broker.zeroCopyProcessor
              (Broker.payloads (Work.requests messages))
            (⟨some (.framing messages call), queue⟩, n)
  | some (.framing messages call) =>
      match call.status with
      | .running _ =>
          let (call, processor) := call.step n.broker.zeroCopyProcessor
          ({ d with current := some (.framing messages call) },
            { n with broker := { n.broker with zeroCopyProcessor := processor } })
      | .returned result =>
          let (sender, n) := n.acquire channel
          ({ d with current := some (.loop sender (messages.zip (Broker.resultIter result))) }, n)
  | some (.loop sender ((t, processedPayload) :: todo)) =>
      let payload := fromUtf8Lossy processedPayload
      match n.store t with
      | (some offset, n') =>
          let delivery : Delivery :=
            ⟨t, n.consumeResponse fresh t.req.topic payload offset, some n.stored.length⟩
          ({ d with current := some (.send sender delivery todo) }, n')
      | (none, n') =>
          let offset := Int64.ofNat n'.broker.messageCounter
          let broker := { n'.broker with messageCounter := n'.broker.messageCounter + 1 }
          let delivery : Delivery :=
            ⟨t, n.consumeResponse fresh t.req.topic payload offset, none⟩
          ({ d with current := some (.send sender delivery todo) }, { n' with broker := broker })
  | some (.loop _ []) => ({ d with current := none }, n)
  | some (.send sender delivery todo) =>
      ({ d with current := some (.loop sender todo) }, n.send sender delivery)

/-- The next operation on a message that is not batched. -/
def stepDirect (fresh : Fresh) (n : Node) (t : Tagged) : Direct → Direct × Node
  | .append =>
      match n.store t with
      | (some offset, n') =>
          (.ensureChannel ⟨t, n.consumeResponse fresh t.req.topic t.req.payload offset,
            some n.stored.length⟩, n')
      | (none, n') => (.failed, n')
  | .ensureChannel delivery =>
      let (sender, n) := n.acquire Broker.ensureChannel
      (.send sender delivery, n)
  | .send sender delivery => (.sent delivery, n.send sender delivery)
  | .sent delivery => (.sent delivery, n)
  | .failed => (.failed, n)

/-- `publish` returns; an answer with success is recorded. -/
def respond (n : Node) (t : Tagged) (response : PublishResponse) : Task × Node :=
  (.publish t.req .returned, { n with responses := n.responses ++ [(t, response)] })

/-- The next operation of a call of `publish`, whose request is `t`. -/
def stepPublish (env : StepEnv) (n : Node) (t : Tagged) : PublishPhase → Task × Node
  | .ensureTopic => (.publish t.req .addMessage, n.ensureTopic t.req.topic)
  | .addMessage =>
      match n.batcher.addMessage t (env.now 0) with
      | .ok batcher => (.publish t.req .getReadyBatches, { n with batcher := batcher })
      | .error _ => (.publish t.req (.single .append), n)
  | .single (.sent delivery) =>
      n.respond t
        { messageId := delivery.response.messageId
          success := true
          message := "Published successfully to partition " ++ toString n.broker.partitionId ++
            " with offset " ++ toString delivery.response.offset
          partition := n.broker.partition
          offset := delivery.response.offset }
  | .single .failed => (.publish t.req .returned, n)
  | .single direct =>
      let (direct, n) := n.stepDirect env.fresh t direct
      (.publish t.req (.single direct), n)
  | .getReadyBatches =>
      let (ready, batcher) := n.batcher.getReadyBatches env.now
      (.publish t.req (.processing ⟨none, ready.map MessageBatch.messages⟩),
        { n with batcher := batcher })
  | .processing drain =>
      if drain.isDone then (.publish t.req .respond, n)
      else
        let (drain, n) := n.stepDrain Broker.ensureChannel env.fresh drain
        (.publish t.req (.processing drain), n)
  | .respond =>
      let offset := Int64.ofNat n.broker.messageCounter
      let broker := { n.broker with messageCounter := n.broker.messageCounter + 1 }
      respond { n with broker := broker } t
        { messageId := env.fresh.messageId
          success := true
          message := "Message queued for batch processing"
          partition := n.broker.partition
          offset := offset }
  | .forward targetPartition => (.publish t.req (.forward targetPartition), n)
  | .forwarded targetPartition => (.publish t.req (.forwarded targetPartition), n)
  | .returned => (.publish t.req .returned, n)
  | .lost => (.publish t.req .lost, n)

/-- The next operation of a call of `forward_message`. -/
def stepForward (env : StepEnv) (n : Node) (i : Nat) (req : ForwardMessageRequest) :
    ForwardPhase → ForwardPhase × Node
  | .checkPartition =>
      if req.targetPartition.toUInt32 ≠ n.broker.partitionId then
        (.returned (.error ("Message forwarded to wrong partition. Expected " ++
          toString n.broker.partitionId ++ ", got " ++ toString req.targetPartition)), n)
      else (.ensureTopic, n)
  | .ensureTopic => (.direct .append, n.ensureTopic req.topic)
  | .direct (.sent delivery) =>
      (.returned (.ok
        { success := true
          message := "Message forwarded successfully to partition " ++
            toString n.broker.partitionId
          offset := delivery.response.offset }), n)
  | .direct .failed => (.returned (.error "Failed to append to storage"), n)
  | .direct direct =>
      let (direct, n) := n.stepDirect env.fresh ⟨i, req.message⟩ direct
      (.direct direct, n)
  | .returned result => (.returned result, n)
  | .lost => (.lost, n)

/-- The stream that `consume` returns. -/
def openStream (n : Node) (req : ConsumeRequest) (sender : Channel) : Node :=
  { n with
    broker := n.broker.countReceivers sender.id (· + 1)
    streams := n.streams ++
      [{ req := req
         channel := sender.id
         openedAt := n.stored.length
         sentBefore := n.deliveries.length
         isOpen := true
         buffer := []
         lagged := false
         client := .receive
         received := []
         records := []
         offsets := [] }] }

/-- The next operation of task `i`: what becomes of the task and of the rest. -/
def stepTask (env : StepEnv) (n : Node) (i : Nat) : Task → Task × Node
  | .flusher drain =>
      if drain.isDone then
        let (ready, batcher) := n.batcher.getReadyBatches env.now
        (.flusher ⟨none, ready.map MessageBatch.messages⟩, { n with batcher := batcher })
      else
        let (drain, n) := n.stepDrain Broker.flusherChannel env.fresh drain
        (.flusher drain, n)
  | .publish req phase => n.stepPublish env ⟨i, req⟩ phase
  | .forwardMessage req phase =>
      let (phase, n) := n.stepForward env i req phase
      (.forwardMessage req phase, n)
  | .consume req .ensureChannel =>
      let (sender, n) := n.acquire Broker.ensureChannel
      (.consume req (.subscribe sender), n)
  | .consume req (.subscribe sender) => (.consume req .returned, n.openStream req sender)
  | .consume req .returned => (.consume req .returned, n)
  | .consume req .lost => (.consume req .lost, n)

/-! ### Steps of the streams -/

/-- The broker drops the receiver of a stream. -/
def closeStream (n : Node) (i : Nat) (st : Stream) : Node :=
  { n with
    broker := if st.isOpen then n.broker.countReceivers st.channel (· - 1) else n.broker
    streams := n.streams.set i { st with isOpen := false } }

/-- `Broker::update_offset`. -/
def updateOffset (n : Node) (consumerId topic : String) (offset : Int64) : Node :=
  if offset < 0 then n
  else if topic ∈ n.topics then
    { n with consumerOffsets := n.consumerOffsets.insert (consumerId, topic) offset }
  else n

/-- The next operation of the consumer that reads stream `i`.  A receiver that
lags makes the stream end with an error.  If the application is gone, records
are dropped, but the loop goes on. -/
def stepClient (n : Node) (i : Nat) (st : Stream) (gone : Bool) : Node :=
  match st.client with
  | .receive =>
      if st.lagged then n.closeStream i { st with client := .ended }
      else
        match st.buffer with
        | [] => n
        | delivery :: buffer =>
            { n with
              streams := n.streams.set i
                { st with
                  buffer := buffer
                  client := .handOver delivery
                  received := st.received ++ [delivery] } }
  | .handOver delivery =>
      let records :=
        if gone then st.records else st.records ++ [delivery.response.payload]
      { n with
        streams := n.streams.set i { st with client := .acknowledge delivery, records := records } }
  | .acknowledge delivery =>
      { n with streams := n.streams.set i { st with client := .updateOffset delivery } }
  | .updateOffset delivery =>
      updateOffset
        { n with
          streams := n.streams.set i
            { st with
              client := .receive
              offsets := st.offsets ++ [delivery.response.offset] } }
        st.req.id st.req.topic delivery.response.offset
  | .ended => n

end Node

/-! ### Steps of a broker -/

/-- What happens next on a broker. -/
inductive NodeLabel
  | publish (req : PublishRequest)
  | forwardMessage (req : ForwardMessageRequest)
  | consume (req : ConsumeRequest)
  | subscribe (topic : String)
  | task (i : Nat) (env : StepEnv)
  | client (i : Nat) (gone : Bool)
  | close (i : Nat)

namespace Node

/-- A new task. -/
def spawn (n : Node) (task : Task) : Node := { n with tasks := n.tasks ++ [task] }

/-- The start of `publish`: a message of another partition is forwarded. -/
def publish (n : Node) (req : PublishRequest) : Node :=
  let targetPartition := PublishState.hashKey req.key % n.totalPartitions
  n.spawn (.publish req
    (if targetPartition ≠ n.broker.partitionId then .forward targetPartition else .ensureTopic))

/-- One step of a broker. -/
def step (n : Node) : NodeLabel → Node
  | .publish req => n.publish req
  | .forwardMessage req => n.spawn (.forwardMessage req .checkPartition)
  | .consume req => n.spawn (.consume req .ensureChannel)
  | .subscribe topic => n.ensureTopic topic
  | .task i env =>
      match n.tasks[i]? with
      | some task =>
          let (task, n) := n.stepTask env i task
          { n with tasks := n.tasks.set i task }
      | none => n
  | .client i gone =>
      match n.streams[i]? with
      | some st => n.stepClient i st gone
      | none => n
  | .close i =>
      match n.streams[i]? with
      | some st => n.closeStream i st
      | none => n

end Node

/-! ### What a step does -/

/-- What a task has in its hands: requests that are to be stored, a sender that it
got for a message not stored yet or for a subscription, and a response that is
to be sent, with the sender for it once there is one. -/
structure Hand where
  requests : List Tagged
  sender : Option Channel
  delivery : Option (Delivery × Option Channel)

/-- Nothing. -/
def Hand.empty : Hand := ⟨[], none, none⟩

/-- Requests only. -/
def Hand.ofRequests (requests : List Tagged) : Hand := ⟨requests, none, none⟩

/-- The sender is still needed if there is something to do. -/
def neededFor {α : Type} (sender : Channel) : List α → Option Channel
  | [] => none
  | _ :: _ => some sender

def Drain.hand (d : Drain) : Hand :=
  match d.current with
  | none => .ofRequests d.queue.flatten
  | some (.framing messages _) => .ofRequests (messages ++ d.queue.flatten)
  | some (.loop sender todo) =>
      ⟨todo.map Prod.fst ++ d.queue.flatten, neededFor sender todo, none⟩
  | some (.send sender delivery todo) =>
      ⟨todo.map Prod.fst ++ d.queue.flatten, neededFor sender todo, some (delivery, some sender)⟩

def Direct.hand (t : Tagged) : Direct → Hand
  | .append => .ofRequests [t]
  | .ensureChannel delivery => ⟨[], none, some (delivery, none)⟩
  | .send sender delivery => ⟨[], none, some (delivery, some sender)⟩
  | .sent _ | .failed => .empty

/-- What task `i` has in its hands.  A request is only to be stored once its
topic exists. -/
def Task.hand (i : Nat) : Task → Hand
  | .flusher drain => drain.hand
  | .publish req .addMessage => .ofRequests [⟨i, req⟩]
  | .publish req (.single direct) => direct.hand ⟨i, req⟩
  | .publish _ (.processing drain) => drain.hand
  | .publish _ _ => .empty
  | .forwardMessage req (.direct direct) => direct.hand ⟨i, req.message⟩
  | .forwardMessage _ _ => .empty
  | .consume _ (.subscribe sender) => ⟨[], some sender, none⟩
  | .consume _ _ => .empty

/-- The next operation of the task is `ensure_channel`. -/
def Task.ensuresChannel : Task → Bool
  | .publish _ (.processing ⟨some (.framing _ ⟨_, .returned _⟩), _⟩) => true
  | .publish _ (.single (.ensureChannel _)) => true
  | .forwardMessage _ (.direct (.ensureChannel _)) => true
  | .consume _ .ensureChannel => true
  | _ => false

/-- The request of the task, if it publishes a message. -/
def Task.message (i : Nat) : Task → Option Tagged
  | .publish req _ => some ⟨i, req⟩
  | .forwardMessage req _ => some ⟨i, req.message⟩
  | .flusher _ | .consume _ _ => none

/-- The task is in `process_single_message`. -/
def Task.isSingle : Task → Bool
  | .publish _ (.single _) => true
  | _ => false

namespace Node

/-- The ways to a channel: `ensure_channel`, if that is what the task calls, or
the flusher's. -/
def Channeling (task : Task) (channel : Broker → Channel × Broker) : Prop :=
  (channel = Broker.ensureChannel ∧ task.ensuresChannel = true) ∨ channel = Broker.flusherChannel

/-- Getting a channel changes nothing else. -/
theorem channelFrame_of_channeling {task : Task} {channel : Broker → Channel × Broker}
    (hch : Channeling task channel) : Broker.ChannelFrame channel := by
  rcases hch with ⟨rfl, -⟩ | rfl
  · exact Broker.ensureChannel_frame
  · exact Broker.flusherChannel_frame

/-- What a step of a task does, by what it has in its hands before and after. -/
inductive Effect (env : StepEnv) (n : Node) (i : Nat) (task : Task) : Hand → Hand → Node → Prop
  | ensureTopic {t : Tagged} (hown : task.message i = some t) :
      Effect env n i task .empty (.ofRequests [t]) (n.ensureTopic t.req.topic)
  | addMessage {t : Tagged} {batcher : BatchedProcessor Tagged}
      (h : n.batcher.addMessage t (env.now 0) = .ok batcher) :
      Effect env n i task (.ofRequests [t]) .empty { n with batcher := batcher }
  | getReadyBatches :
      Effect env n i task .empty
        (.ofRequests ((n.batcher.getReadyBatches env.now).1.map MessageBatch.messages).flatten)
        { n with batcher := (n.batcher.getReadyBatches env.now).2 }
  | pass {requests requests' : List Tagged} (processor : ZeroCopyProcessor)
      (h : requests' ⊆ requests) :
      Effect env n i task (.ofRequests requests) (.ofRequests requests')
        { n with broker := { n.broker with zeroCopyProcessor := processor } }
  | respond {t : Tagged} {response : PublishResponse} (counter : Nat)
      (hid : task.isSingle = false → response.messageId = env.fresh.messageId) :
      Effect env n i task .empty .empty
        { n with
          broker := { n.broker with messageCounter := counter }
          responses := n.responses ++ [(t, response)] }
  | acquire {requests requests' : List Tagged} {channel : Broker → Channel × Broker}
      {sender : Option Channel} (hch : Channeling task channel) (h : requests' ⊆ requests)
      (hsender : sender = none ∨ sender = some (n.acquire channel).1) :
      Effect env n i task (.ofRequests requests) ⟨requests', sender, none⟩ (n.acquire channel).2
  | acquireFor {delivery : Delivery} {channel : Broker → Channel × Broker}
      (hch : Channeling task channel) :
      Effect env n i task ⟨[], none, some (delivery, none)⟩
        ⟨[], none, some (delivery, some (n.acquire channel).1)⟩ (n.acquire channel).2
  | storeBatched {t : Tagged} {requests : List Tagged} {sender : Channel}
      {next : Option Channel} {payload : String} {offset : Int64} {n' : Node}
      (hnext : next = none ∨ next = some sender) (h : n.store t = (some offset, n')) :
      Effect env n i task ⟨t :: requests, some sender, none⟩
        ⟨requests, next,
          some (⟨t, n.consumeResponse env.fresh t.req.topic payload offset, some n.stored.length⟩,
            some sender)⟩ n'
  | countBatched {t : Tagged} {requests : List Tagged} {sender : Channel}
      {next : Option Channel} {payload : String} {offset : Int64} {n' : Node} (counter : Nat)
      (hnext : next = none ∨ next = some sender) (h : n.store t = (none, n')) :
      Effect env n i task ⟨t :: requests, some sender, none⟩
        ⟨requests, next,
          some (⟨t, n.consumeResponse env.fresh t.req.topic payload offset, none⟩, some sender)⟩
        { n' with broker := { n'.broker with messageCounter := counter } }
  | storeDirect {t : Tagged} {offset : Int64} {n' : Node}
      (h : n.store t = (some offset, n')) :
      Effect env n i task (.ofRequests [t])
        ⟨[], none,
          some (⟨t, n.consumeResponse env.fresh t.req.topic t.req.payload offset,
            some n.stored.length⟩, none)⟩ n'
  | failDirect {t : Tagged} {n' : Node} (h : n.store t = (none, n')) :
      Effect env n i task (.ofRequests [t]) .empty n'
  | send {requests : List Tagged} {next : Option Channel} {sender : Channel}
      {delivery : Delivery} :
      Effect env n i task ⟨requests, next, some (delivery, some sender)⟩ ⟨requests, next, none⟩
        (n.send sender delivery)
  | subscribe {sender : Channel} {req : ConsumeRequest} :
      Effect env n i task ⟨[], some sender, none⟩ .empty (n.openStream req sender)

/-- A step that changes nothing. -/
theorem Effect.stay {env : StepEnv} {n : Node} {i : Nat} {task : Task}
    (requests requests' : List Tagged) (h : requests' ⊆ requests) :
    Effect env n i task (.ofRequests requests) (.ofRequests requests') n :=
  .pass n.broker.zeroCopyProcessor h

theorem neededFor_cases {α : Type} (sender : Channel) (todo : List α) :
    neededFor sender todo = none ∨ neededFor sender todo = some sender := by
  cases todo with
  | nil => exact .inl rfl
  | cons x todo => exact .inr rfl

variable {env : StepEnv} {n : Node} {i : Nat} {task : Task}

/-- What an operation on popped batches does. -/
theorem effect_stepDrain {channel : Broker → Channel × Broker} {d : Drain}
    (hch : (∃ messages call result queue, d = ⟨some (.framing messages call), queue⟩ ∧
      call.status = .returned result) → Channeling task channel) :
    Effect env n i task d.hand (n.stepDrain channel env.fresh d).1.hand
      (n.stepDrain channel env.fresh d).2 := by
  obtain ⟨current, queue⟩ := d
  match current with
  | none =>
      cases queue with
      | nil => exact .stay _ _ (List.Subset.refl _)
      | cons messages queue =>
          simp only [stepDrain]
          split
          · exact .stay _ _ (by simp)
          · exact .stay _ _ (by simp)
  | some (.framing messages call) =>
      simp only [stepDrain]
      split
      · exact .pass _ (List.Subset.refl _)
      · rename_i result hreturned
        have hsub : (messages.zip (Broker.resultIter result)).map Prod.fst ++ queue.flatten ⊆
            messages ++ queue.flatten := by
          intro t ht
          rcases List.mem_append.mp ht with hzip | hqueue
          · obtain ⟨⟨t', payload⟩, hmem, rfl⟩ := List.mem_map.mp hzip
            exact List.mem_append_left _ (List.of_mem_zip hmem).1
          · exact List.mem_append_right _ hqueue
        exact .acquire (hch ⟨messages, call, result, queue, rfl, hreturned⟩) hsub
          (neededFor_cases _ _)
  | some (.loop sender []) => exact .stay _ _ (List.Subset.refl _)
  | some (.loop sender ((t, processedPayload) :: todo)) =>
      simp only [stepDrain]
      split
      · rename_i offset n' hstore
        exact .storeBatched (neededFor_cases sender todo) hstore
      · rename_i n' hstore
        exact .countBatched _ (neededFor_cases sender todo) hstore
  | some (.send sender delivery todo) => exact .send

/-- What an operation on a message that is not batched does. -/
theorem effect_stepDirect (env : StepEnv) (n : Node) (i : Nat) (task : Task) (t : Tagged)
    (direct : Direct)
    (hch : (∃ delivery, direct = .ensureChannel delivery) → task.ensuresChannel = true) :
    Effect env n i task (direct.hand t) ((n.stepDirect env.fresh t direct).1.hand t)
      (n.stepDirect env.fresh t direct).2 := by
  cases direct with
  | append =>
      simp only [stepDirect]
      split
      · rename_i offset n' hstore
        exact .storeDirect hstore
      · rename_i n' hstore
        exact .failDirect hstore
  | ensureChannel delivery => exact .acquireFor (.inl ⟨rfl, hch ⟨delivery, rfl⟩⟩)
  | send sender delivery => exact .send
  | sent delivery => exact .stay [] [] (List.Subset.refl _)
  | failed => exact .stay [] [] (List.Subset.refl _)

theorem hand_of_isDone {d : Drain} (h : d.isDone = true) : d.hand = .empty := by
  obtain ⟨current, queue⟩ := d
  simp only [Drain.isDone, Bool.and_eq_true, Option.isNone_iff_eq_none, List.isEmpty_iff] at h
  rw [h.1, h.2]
  rfl

theorem effect_stepPublish (env : StepEnv) (n : Node) (i : Nat) (req : PublishRequest)
    (phase : PublishPhase) :
    Effect env n i (.publish req phase) (Task.hand i (.publish req phase))
      ((n.stepPublish env ⟨i, req⟩ phase).1.hand i) (n.stepPublish env ⟨i, req⟩ phase).2 := by
  have hstay : Effect env n i (.publish req phase) .empty .empty n :=
    .stay [] [] (List.Subset.refl _)
  cases phase with
  | ensureTopic => exact .ensureTopic (t := ⟨i, req⟩) rfl
  | addMessage =>
      simp only [stepPublish]
      split
      · rename_i batcher hadd
        exact .addMessage hadd
      · exact .stay _ _ (List.Subset.refl _)
  | single direct =>
      cases direct with
      | sent delivery =>
          exact .respond (t := ⟨i, req⟩) n.broker.messageCounter fun hsingle => by cases hsingle
      | failed => exact hstay
      | append => exact effect_stepDirect env n i _ ⟨i, req⟩ .append (by rintro ⟨_, ⟨⟩⟩)
      | ensureChannel delivery =>
          exact effect_stepDirect env n i _ ⟨i, req⟩ (.ensureChannel delivery) fun _ => rfl
      | send sender delivery =>
          exact effect_stepDirect env n i _ ⟨i, req⟩ (.send sender delivery) (by rintro ⟨_, ⟨⟩⟩)
  | getReadyBatches => exact .getReadyBatches
  | processing drain =>
      simp only [stepPublish]
      split
      · rename_i hdone
        have hempty : Task.hand i (.publish req (.processing drain)) = .empty :=
          hand_of_isDone hdone
        rw [hempty]
        exact .stay [] [] (List.Subset.refl _)
      · apply effect_stepDrain
        rintro ⟨messages, ⟨payloads, status⟩, result, queue, rfl, hreturned⟩
        obtain rfl : status = .returned result := hreturned
        exact .inl ⟨rfl, rfl⟩
  | respond => exact .respond (t := ⟨i, req⟩) _ fun _ => rfl
  | forward targetPartition => exact hstay
  | forwarded targetPartition => exact hstay
  | returned => exact hstay
  | lost => exact hstay

theorem effect_stepForward (env : StepEnv) (n : Node) (i : Nat) (req : ForwardMessageRequest)
    (phase : ForwardPhase) :
    Effect env n i (.forwardMessage req phase) (Task.hand i (.forwardMessage req phase))
      (Task.hand i (.forwardMessage req (n.stepForward env i req phase).1))
      (n.stepForward env i req phase).2 := by
  have hstay : Effect env n i (.forwardMessage req phase) .empty .empty n :=
    .stay [] [] (List.Subset.refl _)
  cases phase with
  | checkPartition =>
      simp only [stepForward]
      split <;> exact hstay
  | ensureTopic => exact .ensureTopic (t := ⟨i, req.message⟩) rfl
  | direct direct =>
      cases direct with
      | sent delivery => exact hstay
      | failed => exact hstay
      | append => exact effect_stepDirect env n i _ ⟨i, req.message⟩ .append (by rintro ⟨_, ⟨⟩⟩)
      | ensureChannel delivery =>
          exact effect_stepDirect env n i _ ⟨i, req.message⟩ (.ensureChannel delivery) fun _ => rfl
      | send sender delivery =>
          exact effect_stepDirect env n i _ ⟨i, req.message⟩ (.send sender delivery)
            (by rintro ⟨_, ⟨⟩⟩)
  | returned result => exact hstay
  | lost => exact hstay

/-- **Every step of a task has one of the effects.** -/
theorem effect_stepTask (env : StepEnv) (n : Node) (i : Nat) (task : Task) :
    Effect env n i task (task.hand i) ((n.stepTask env i task).1.hand i)
      (n.stepTask env i task).2 := by
  cases task with
  | flusher drain =>
      simp only [stepTask]
      split
      · rename_i hdone
        have hempty : Task.hand i (.flusher drain) = .empty := hand_of_isDone hdone
        rw [hempty]
        exact .getReadyBatches
      · exact effect_stepDrain fun _ => .inr rfl
  | publish req phase => exact effect_stepPublish env n i req phase
  | forwardMessage req phase => exact effect_stepForward env n i req phase
  | consume req phase =>
      cases phase with
      | ensureChannel =>
          have hnone : ([] : List Tagged) ⊆ [] := List.Subset.refl _
          exact .acquire (.inl ⟨rfl, rfl⟩) hnone (.inr rfl)
      | subscribe sender => exact .subscribe
      | returned => exact .stay [] [] (List.Subset.refl _)
      | lost => exact .stay [] [] (List.Subset.refl _)

/-- A task keeps its request. -/
theorem message_stepTask (env : StepEnv) (n : Node) (i : Nat) (task : Task) :
    (n.stepTask env i task).1.message i = task.message i := by
  cases task with
  | flusher drain =>
      simp only [stepTask]
      split <;> rfl
  | publish req phase =>
      simp only [stepTask, stepPublish, respond]
      split <;> (try split) <;> rfl
  | forwardMessage req phase => rfl
  | consume req phase => cases phase <;> rfl

/-- A message that is stored. -/
theorem store_eq_some {t : Tagged} {offset : Int64} {n' : Node}
    (h : n.store t = (some offset, n')) :
    n' = { n with
      broker := { n.broker with
        storage := (n.broker.storage.append t.req.topic n.broker.partition
          (utf8 t.req.payload)).2 }
      stored := n.stored ++ [(t, offset)] } := by
  unfold store at h
  split at h
  · rename_i offset' broker hstore
    obtain ⟨hoffset, rfl⟩ := Prod.mk.inj h
    cases hoffset
    obtain ⟨-, rfl⟩ := Prod.mk.inj hstore
    rfl
  · cases (Prod.mk.inj h).1

/-- A message that cannot be stored. -/
theorem store_eq_none {t : Tagged} {n' : Node} (h : n.store t = (none, n')) :
    n.broker.storage.log? t.req.topic n.broker.partition = none ∧ n' = n := by
  have hnone : n.broker.storage.log? t.req.topic n.broker.partition = none := by
    by_contra hsome
    obtain ⟨log, hlog⟩ := Option.ne_none_iff_exists'.mp hsome
    have hstore : (n.broker.store t.req).1 = some (log.append (utf8 t.req.payload)).1 := by
      simp only [Broker.store, LogStore.append, hlog]
    unfold store at h
    split at h
    · cases (Prod.mk.inj h).1
    · rename_i broker heq
      rw [heq] at hstore
      cases hstore
  refine ⟨hnone, ?_⟩
  rw [store, Broker.store_of_missing hnone] at h
  exact (Prod.mk.inj h).2.symm

theorem tasks_ensureTopic (n : Node) (topic : String) :
    (n.ensureTopic topic).tasks = n.tasks := by
  unfold ensureTopic
  split <;> rfl

/-- A step of a task leaves the list of tasks to the broker. -/
theorem Effect.tasks_eq {h h' : Hand} {n' : Node} (heffect : Effect env n i task h h' n') :
    n'.tasks = n.tasks := by
  cases heffect with
  | ensureTopic hown => exact tasks_ensureTopic n _
  | addMessage hadd => rfl
  | getReadyBatches => rfl
  | pass processor hsub => rfl
  | respond counter hid => rfl
  | acquire hch hsub hsender => rfl
  | acquireFor hch => rfl
  | storeBatched hnext hstore =>
      obtain rfl := store_eq_some hstore
      rfl
  | countBatched counter hnext hstore =>
      obtain ⟨-, rfl⟩ := store_eq_none hstore
      rfl
  | storeDirect hstore =>
      obtain rfl := store_eq_some hstore
      rfl
  | failDirect hstore =>
      obtain ⟨-, rfl⟩ := store_eq_none hstore
      rfl
  | send => rfl
  | subscribe => rfl

/-- What consumers leave as it is. -/
structure Frame (n n' : Node) : Prop where
  partitionId : n'.broker.partitionId = n.broker.partitionId
  totalPartitions : n'.totalPartitions = n.totalPartitions
  tasks : n'.tasks = n.tasks
  topics : n'.topics = n.topics
  batcher : n'.batcher = n.batcher
  storage : n'.broker.storage = n.broker.storage
  recovered : n'.recovered = n.recovered
  stored : n'.stored = n.stored
  deliveries : n'.deliveries = n.deliveries
  responses : n'.responses = n.responses

theorem Frame.refl (n : Node) : Frame n n := ⟨rfl, rfl, rfl, rfl, rfl, rfl, rfl, rfl, rfl, rfl⟩

theorem Frame.trans {n n' n'' : Node} (h : Frame n n') (h' : Frame n' n'') : Frame n n'' where
  partitionId := h'.partitionId.trans h.partitionId
  totalPartitions := h'.totalPartitions.trans h.totalPartitions
  tasks := h'.tasks.trans h.tasks
  topics := h'.topics.trans h.topics
  batcher := h'.batcher.trans h.batcher
  storage := h'.storage.trans h.storage
  recovered := h'.recovered.trans h.recovered
  stored := h'.stored.trans h.stored
  deliveries := h'.deliveries.trans h.deliveries
  responses := h'.responses.trans h.responses

theorem frame_closeStream (n : Node) (i : Nat) (st : Stream) : Frame n (n.closeStream i st) := by
  unfold closeStream
  split <;> exact ⟨rfl, rfl, rfl, rfl, rfl, rfl, rfl, rfl, rfl, rfl⟩

theorem frame_updateOffset (n : Node) (consumerId topic : String) (offset : Int64) :
    Frame n (n.updateOffset consumerId topic offset) := by
  unfold updateOffset
  split
  · exact .refl n
  · split <;> exact ⟨rfl, rfl, rfl, rfl, rfl, rfl, rfl, rfl, rfl, rfl⟩

theorem frame_stepClient (n : Node) (i : Nat) (st : Stream) (gone : Bool) :
    Frame n (n.stepClient i st gone) := by
  have hstreams : ∀ streams : List Stream, Frame n { n with streams := streams } :=
    fun streams => ⟨rfl, rfl, rfl, rfl, rfl, rfl, rfl, rfl, rfl, rfl⟩
  unfold stepClient
  split
  · split
    · exact frame_closeStream n i _
    · split
      · exact .refl n
      · exact hstreams _
  · exact hstreams _
  · exact hstreams _
  · exact (hstreams _).trans (frame_updateOffset _ _ _ _)
  · exact .refl n

/-! ### A batch that is processed without interruption -/

/-- Operations on popped batches, with nothing else in between; the `k`-th one
draws `fresh k`. -/
def drainAlone (channel : Broker → Channel × Broker) (fresh : Nat → Fresh) :
    Nat → Nat → Drain × Node → Drain × Node
  | 0, _, s => s
  | steps + 1, k, s => drainAlone channel fresh steps (k + 1) (s.2.stepDrain channel (fresh k) s.1)

/-- An append and the `send` after it are a turn of the loop. -/
theorem drainAlone_turn (channel : Broker → Channel × Broker) (fresh : Nat → Fresh) (k : Nat)
    (n : Node) (sender : Channel) (t : Tagged) (processedPayload : List UInt8)
    (todo : List (Tagged × List UInt8)) (queue : List (List Tagged)) :
    ∃ n', drainAlone channel fresh 2 k
        (⟨some (.loop sender ((t, processedPayload) :: todo)), queue⟩, n) =
          (⟨some (.loop sender todo), queue⟩, n') ∧
      n'.broker = Broker.processNext sender n.broker (fresh k) t.req processedPayload := by
  cases hstore : n.store t with
  | mk offset n' =>
      cases offset with
      | some offset =>
          have hbroker : n.broker.store t.req = (some offset, n'.broker) := by
            unfold store at hstore
            split at hstore
            · rename_i heq
              obtain ⟨hoffset, rfl⟩ := Prod.mk.inj hstore
              rw [heq, hoffset]
            · cases (Prod.mk.inj hstore).1
          simp only [drainAlone, stepDrain, hstore, Broker.processNext, hbroker]
          refine ⟨_, rfl, ?_⟩
          rw [store_eq_some hstore]
          rfl
      | none =>
          obtain ⟨hmissing, rfl⟩ := store_eq_none hstore
          simp only [drainAlone, stepDrain, hstore, Broker.processNext,
            Broker.store_of_missing hmissing]
          exact ⟨_, rfl, rfl⟩

/-- **If nothing comes in between, a batch is processed as a whole.** -/
theorem drainAlone_loop (channel : Broker → Channel × Broker) (fresh : Nat → Fresh)
    (sender : Channel) (queue : List (List Tagged)) (todo : List (Tagged × List UInt8)) (k : Nat)
    (n : Node) :
    ∃ n', drainAlone channel fresh (2 * todo.length) (2 * k)
        (⟨some (.loop sender todo), queue⟩, n) = (⟨some (.loop sender []), queue⟩, n') ∧
      n'.broker = Broker.processLoop sender (fun j => fresh (2 * j)) k n.broker
        (todo.map fun turn => (turn.1.req, turn.2)) := by
  induction todo generalizing k n with
  | nil => exact ⟨n, rfl, rfl⟩
  | cons turn todo ih =>
      obtain ⟨t, processedPayload⟩ := turn
      obtain ⟨next, hturn, hnext⟩ := drainAlone_turn channel fresh (2 * k) n sender t
        processedPayload todo queue
      obtain ⟨n', hrest, hbroker⟩ := ih (k + 1) next
      refine ⟨n', ?_, ?_⟩
      · -- two operations are the first turn
        show drainAlone channel fresh (2 * todo.length) (2 * k + 2)
          (drainAlone channel fresh 2 (2 * k) _) = _
        rw [hturn]
        exact hrest
      · rw [hbroker, hnext]
        rfl

end Node

end Rafka
