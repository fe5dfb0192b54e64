/-
Rafka/SimpleStream.lean

Stream processing on the client (`crates/streams/src/simple_stream.rs`, with
`Consumer::consume` in `crates/consumer/src/consumer.rs` and `Producer::publish` and the
`ConnectionPool` in `crates/producer/src`).

A task of the consumer takes the responses from the broker, passes their payloads on through
a channel, and acknowledges them once they are in it.  At the other end a task of the stream
transforms the payloads and publishes what comes out, one after the other, or it collects
them into windows and passes on an aggregate of each.

* `processed_in_order` — in every run, each payload is transformed once and in order, and
  what comes out of it is published at most once; an answer of the broker never belongs to
  another message than the one it was asked for.  What has been acknowledged may still be in
  the channel, so it is lost if the task is;
* `connections_reused` — the producer never has more than one connection, and opens one only
  when it has none: once for the first message and again after each failure;
* `windows_partition` — the windows are not empty, follow each other without gaps, and their
  aggregates reach the application in order; a window takes in all that has been received
  when its time is over.
-/
import Rafka.Broker
import Rafka.Mpsc

namespace Rafka

/-! ### The producer -/

/-- `ConnectionPool`: the connections that nobody is using, the last one on top. -/
structure ConnectionPool where
  connections : List Nat
  maxConnections : Nat
deriving DecidableEq

namespace ConnectionPool

/-- `ConnectionPool::new`. -/
def new (maxConnections : Nat) : ConnectionPool := ⟨[], maxConnections⟩

/-- `ConnectionPool::get_connection`, where a new connection would end like this. -/
def getConnection (p : ConnectionPool) (connect : Except String Nat) :
    Except String Nat × ConnectionPool :=
  match p.connections.getLast? with
  | some client => (.ok client, { p with connections := p.connections.dropLast })
  | none =>
      match connect with
      | .ok client => (.ok client, p)
      | .error e => (.error s!"Failed to connect: {e}", p)

/-- `ConnectionPool::return_connection`: a full pool drops it. -/
def returnConnection (p : ConnectionPool) (client : Nat) : ConnectionPool :=
  if p.connections.length < p.maxConnections then
    { p with connections := p.connections ++ [client] }
  else p

end ConnectionPool

/-- Where `Producer::publish` stands: before `get_connection`, or at the remote call. -/
inductive PublishStage
  | connecting (request : PublishRequest)
  | calling (request : PublishRequest) (client : Nat)
deriving DecidableEq

/-- How a call of `publish` ends: with an error for want of a connection, with the error of the
remote call, or with its answer. -/
inductive PublishEnd
  | notConnected (error : String)
  | failed (error : String)
  | published (response : PublishResponse)
deriving DecidableEq

/-- `Producer`, with the call of `publish` that is under way (`publish` takes `&mut self`, so
there is one at most), how many connections have been opened, the requests it has been given,
and how they have ended. -/
structure Producer where
  connectionPool : ConnectionPool
  producerId : String
  stage : Option PublishStage
  opened : Nat
  requests : List PublishRequest
  ended : List (PublishRequest × PublishEnd)

namespace Producer

/-- `Producer::new`. -/
def new (producerId : String) : Producer := ⟨.new 10, producerId, none, 0, [], []⟩

/-- `Producer::publish` is called. -/
def publish (p : Producer) (topic message key : String) : Producer :=
  let request := ⟨p.producerId, topic, key, message⟩
  { p with stage := some (.connecting request), requests := p.requests ++ [request] }

/-- The call gets its connection, or fails to open one. -/
def connect (p : Producer) (outcome : Except String Unit) : Producer :=
  match p.stage with
  | some (.connecting request) =>
      let isNew := p.connectionPool.connections = [] ∧ outcome.isOk
      match p.connectionPool.getConnection (outcome.map fun _ => p.opened) with
      | (.ok client, connectionPool) =>
          { p with
            connectionPool
            stage := some (.calling request client)
            opened := if isNew then p.opened + 1 else p.opened }
      | (.error e, connectionPool) =>
          { p with connectionPool, stage := none, ended := p.ended ++ [(request, .notConnected e)] }
  | _ => p

/-- The remote call ends.  After an error the connection is dropped. -/
def answer (p : Producer) (response : Except String PublishResponse) : Producer :=
  match p.stage with
  | some (.calling request client) =>
      match response with
      | .ok result =>
          { p with
            connectionPool := p.connectionPool.returnConnection client
            stage := none
            ended := p.ended ++ [(request, .published result)] }
      | .error e => { p with stage := none, ended := p.ended ++ [(request, .failed e)] }
  | _ => p

end Producer

/-! ### The consumer -/

/-- Where the task of `Consumer::consume` stands. -/
inductive ConsumeStage
  | waiting
  | sending (message : ConsumeResponse)
  | acknowledging (message : ConsumeResponse)
  | updating (message : ConsumeResponse)
  | ended
deriving DecidableEq

/-- The task of `Consumer::consume` with its channel, the responses it has taken from the
stream, and the messages and offsets it has acknowledged. -/
structure Feed where
  stage : ConsumeStage
  channel : Mpsc String
  messages : List ConsumeResponse
  acknowledged : List String
  offsets : List Int64

/-- What happens to the task. -/
inductive FeedEvent
  | message (message : ConsumeResponse)
  | streamEnds
  | proceed
deriving DecidableEq

namespace Feed

/-- `Consumer::consume` returns. -/
def start : Feed := ⟨.waiting, .new 100, [], [], []⟩

/-- One step of the task.  What comes of the acknowledgement is ignored, and also of the
update of the offset. -/
def step (f : Feed) : FeedEvent → Feed
  | .message message =>
      if f.stage = .waiting then
        { f with stage := .sending message, messages := f.messages ++ [message] }
      else f
  | .streamEnds => if f.stage = .waiting then { f with stage := .ended } else f
  | .proceed =>
      match f.stage with
      | .sending message =>
          match f.channel.send? message.payload with
          | some channel => { f with stage := .acknowledging message, channel }
          | none => f
      | .acknowledging message =>
          { f with stage := .updating message, acknowledged := f.acknowledged ++ [message.messageId] }
      | .updating message => { f with stage := .waiting, offsets := f.offsets ++ [message.offset] }
      | _ => f

end Feed

/-! ### The tasks of a stream -/

namespace SimpleStream

/-- The task of `SimpleStream::process`, with its consumer and its producer. -/
structure Processing where
  feed : Feed
  producer : Producer
  isRunning : Bool

/-- What happens to it.  When it receives a message it reads the clock. -/
inductive ProcessEvent
  | feed (e : FeedEvent)
  | recv (timestamp : Int64)
  | connect (outcome : Except String Unit)
  | answer (response : Except String PublishResponse)

namespace Processing

/-- `SimpleStream::process` returns. -/
def start (producerId : String) : Processing := ⟨.start, .new producerId, true⟩

/-- One step.  The task receives when no call of `publish` is under way, and ends when the
consumer has ended and the channel is empty. -/
def step (outputTopic : String) (processor : String → Option String) (s : Processing) :
    ProcessEvent → Processing
  | .feed e => { s with feed := s.feed.step e }
  | .recv timestamp =>
      if s.isRunning ∧ s.producer.stage = none then
        match s.feed.channel.recv? with
        | some (message, channel) =>
            let feed := { s.feed with channel }
            match processor message with
            | some transformed =>
                let key := s!"key-{timestamp}"
                { s with feed, producer := s.producer.publish outputTopic transformed key }
            | none => { s with feed }
        | none => { s with isRunning := s.feed.stage ≠ .ended }
      else s
  | .connect outcome => { s with producer := s.producer.connect outcome }
  | .answer response => { s with producer := s.producer.answer response }

end Processing

/-- Where the task of `SimpleStream::aggregate` stands. -/
inductive AggregateStage
  | selecting
  | sending (key result : String)
deriving DecidableEq

/-- The task of `SimpleStream::aggregate`, with its consumer, the channel to the application,
and the windows it has aggregated. -/
structure Aggregation where
  feed : Feed
  stage : AggregateStage
  buffer : List String
  output : Mpsc (String × String)
  windows : List (List String)

/-- What happens to it. -/
inductive AggregateEvent
  | feed (e : FeedEvent)
  | recv
  | tick (timestamp : Int64)
  | send
  /-- The application receives an aggregate. -/
  | read
  /-- The application drops the receiver. -/
  | dropReceiver

namespace Aggregation

/-- `SimpleStream::aggregate` returns. -/
def start : Aggregation := ⟨.start, .selecting, [], .new 100, []⟩

/-- One step.  A receive from a channel without senders only disables the branch. -/
def step (aggregator : List String → String) (s : Aggregation) : AggregateEvent → Aggregation
  | .feed e => { s with feed := s.feed.step e }
  | .recv =>
      if s.stage = .selecting then
        match s.feed.channel.recv? with
        | some (message, channel) =>
            { s with feed := { s.feed with channel }, buffer := s.buffer ++ [message] }
        | none => s
      else s
  | .tick timestamp =>
      if s.stage = .selecting ∧ s.buffer ≠ [] then
        let result := aggregator s.buffer
        let key := s!"agg-{timestamp}"
        { s with stage := .sending key result, windows := s.windows ++ [s.buffer] }
      else s
  | .send =>
      match s.stage with
      | .sending key result =>
          match s.output.send? (key, result) with
          | some output => { s with stage := .selecting, buffer := [], output }
          | none => s
      | .selecting => s
  | .read =>
      match s.output.recv? with
      | some (_, output) => { s with output }
      | none => s
  | .dropReceiver => { s with output := s.output.dropReceiver }

end Aggregation

end SimpleStream

/-! ### What the consumer passes on -/

/-- The message that the task has still to pass on. -/
def ConsumeStage.unsent : ConsumeStage → List ConsumeResponse
  | .sending message => [message]
  | _ => []

/-- The message that it has still to acknowledge. -/
def ConsumeStage.unacknowledged : ConsumeStage → List ConsumeResponse
  | .sending message => [message]
  | .acknowledging message => [message]
  | _ => []

/-- The message of which it has still to update the offset. -/
def ConsumeStage.unreported : ConsumeStage → List ConsumeResponse
  | .sending message => [message]
  | .acknowledging message => [message]
  | .updating message => [message]
  | _ => []

namespace Feed

/-- The task passes on what it takes from the stream, in order, and acknowledges it after that. -/
structure Ok (f : Feed) : Prop where
  isOpen : f.channel.isOpen = true
  capacity : f.channel.capacity = 100
  sent : f.channel.sent ++ f.stage.unsent.map ConsumeResponse.payload =
    f.messages.map ConsumeResponse.payload
  acknowledged : f.acknowledged ++ f.stage.unacknowledged.map ConsumeResponse.messageId =
    f.messages.map ConsumeResponse.messageId
  offsets : f.offsets ++ f.stage.unreported.map ConsumeResponse.offset =
    f.messages.map ConsumeResponse.offset

variable {f : Feed}

theorem ok_start : start.Ok := ⟨rfl, rfl, rfl, rfl, rfl⟩

theorem Ok.step (h : f.Ok) (e : FeedEvent) : (f.step e).Ok := by
  cases e with
  | message message =>
      rw [Feed.step]
      split
      · rename_i hwaiting
        have hsent := h.sent
        have hacknowledged := h.acknowledged
        have hoffsets := h.offsets
        rw [hwaiting] at hsent hacknowledged hoffsets
        simp only [ConsumeStage.unsent, ConsumeStage.unacknowledged, ConsumeStage.unreported,
          List.map_nil, List.append_nil] at hsent hacknowledged hoffsets
        refine ⟨h.isOpen, h.capacity, ?_, ?_, ?_⟩
        · rw [hsent, List.map_append]
          rfl
        · rw [hacknowledged, List.map_append]
          rfl
        · rw [hoffsets, List.map_append]
          rfl
      · exact h
  | streamEnds =>
      rw [Feed.step]
      split
      · rename_i hwaiting
        have hsent := h.sent
        have hacknowledged := h.acknowledged
        have hoffsets := h.offsets
        rw [hwaiting] at hsent hacknowledged hoffsets
        exact ⟨h.isOpen, h.capacity, hsent, hacknowledged, hoffsets⟩
      · exact h
  | proceed =>
      have hsent := h.sent
      have hacknowledged := h.acknowledged
      have hoffsets := h.offsets
      rw [Feed.step]
      split
      · rename_i message hstage
        rw [hstage] at hsent hacknowledged hoffsets
        split
        · rename_i channel hsend
          rcases Mpsc.send?_cases hsend with ⟨-, hopen, hchannel, -, -⟩ | ⟨hclosed, -⟩
          · refine ⟨hopen, (Mpsc.capacity_send? hsend).trans h.capacity, ?_, hacknowledged, hoffsets⟩
            rw [hchannel]
            exact (List.append_nil _).trans hsent
          · rw [h.isOpen] at hclosed
            cases hclosed
        · exact h
      · rename_i message hstage
        rw [hstage] at hsent hacknowledged hoffsets
        exact ⟨h.isOpen, h.capacity, hsent, (List.append_nil _).trans hacknowledged, hoffsets⟩
      · rename_i message hstage
        rw [hstage] at hsent hacknowledged hoffsets
        exact ⟨h.isOpen, h.capacity, hsent, hacknowledged, (List.append_nil _).trans hoffsets⟩
      · exact h

/-- What is received changes nothing of what has been sent. -/
theorem Ok.recv (h : f.Ok) {x : String} {channel : Mpsc String}
    (hrecv : f.channel.recv? = some (x, channel)) : Ok { f with channel } := by
  obtain ⟨hopen, hsent, -, -⟩ := Mpsc.recv?_eq_some hrecv
  refine ⟨hopen.trans h.isOpen, (Mpsc.capacity_recv? hrecv).trans h.capacity, ?_, h.acknowledged,
    h.offsets⟩
  show channel.sent ++ _ = _
  rw [hsent]
  exact h.sent

/-- Nothing is received by the steps of the task. -/
theorem received_step (f : Feed) (e : FeedEvent) :
    (f.step e).channel.received = f.channel.received := by
  cases e with
  | message message =>
      rw [Feed.step]
      split
      · rfl
      · rfl
  | streamEnds =>
      rw [Feed.step]
      split
      · rfl
      · rfl
  | proceed =>
      rw [Feed.step]
      split
      · split
        · rename_i channel hsend
          rcases Mpsc.send?_cases hsend with ⟨-, -, -, hreceived, -⟩ | ⟨-, rfl⟩
          · exact hreceived
          · rfl
        · rfl
      · rfl
      · rfl
      · rfl

theorem step_of_ended (h : f.stage = .ended) (e : FeedEvent) : f.step e = f := by
  cases e with
  | message message => exact if_neg (by rw [h]; decide)
  | streamEnds => exact if_neg (by rw [h]; decide)
  | proceed => rw [Feed.step, h]

/-- What the application has received, what waits in the channel, and what the task has in
its hands, is what it has taken from the stream. -/
theorem Ok.passed (h : f.Ok) : f.channel.received ++ f.channel.buffer ++
    f.stage.unsent.map ConsumeResponse.payload = f.messages.map ConsumeResponse.payload := by
  rw [f.channel.eq_sent h.isOpen]
  exact h.sent

theorem Ok.length_buffer_le (h : f.Ok) : f.channel.buffer.length ≤ 100 :=
  h.capacity ▸ f.channel.length_buffer

end Feed

/-! ### What the producer does with its connections -/

namespace ConnectionPool

variable {p : ConnectionPool} {client : Nat}

theorem getConnection_of_empty (h : p.connections = []) (connect : Except String Nat) :
    p.getConnection connect = (connect.mapError fun e => s!"Failed to connect: {e}", p) := by
  rw [getConnection.eq_def, h]
  cases connect with
  | ok client => rfl
  | error e => rfl

theorem getConnection_of_one (h : p.connections = [client]) (connect : Except String Nat) :
    p.getConnection connect = (.ok client, { p with connections := [] }) := by
  rw [getConnection.eq_def, h]
  rfl

theorem returnConnection_of_empty (h : p.connections = []) (hroom : 0 < p.maxConnections)
    (client : Nat) : p.returnConnection client = { p with connections := [client] } := by
  rw [returnConnection, h, List.length_nil, if_pos hroom, List.nil_append]

end ConnectionPool

namespace Producer

variable {p : Producer}

/-- The request of the call that is under way. -/
def underWay (p : Producer) : List PublishRequest :=
  match p.stage with
  | some (.connecting request) => [request]
  | some (.calling request _) => [request]
  | none => []

/-- The connection that is in use. -/
def inUse (p : Producer) : List Nat :=
  match p.stage with
  | some (.calling _ client) => [client]
  | _ => []

/-- How many remote calls have failed. -/
def failures (p : Producer) : Nat :=
  p.ended.countP fun e => match e.2 with
    | .failed _ => true
    | _ => false

/-- Every request has ended, in order, but for the one that is under way; and the producer has
no connection but the last one that it has opened, unless a call on that has failed. -/
structure Ok (p : Producer) : Prop where
  requests : p.ended.map Prod.fst ++ p.underWay = p.requests
  maxConnections : p.connectionPool.maxConnections = 10
  connections : (p.connectionPool.connections ++ p.inUse = [] ∧ p.opened = p.failures) ∨
    (p.connectionPool.connections ++ p.inUse = [p.opened - 1] ∧ p.opened = p.failures + 1)

theorem ok_new (producerId : String) : (new producerId).Ok := ⟨rfl, rfl, .inl ⟨rfl, rfl⟩⟩

theorem failures_concat (p : Producer) (request : PublishRequest) (outcome : PublishEnd) :
    failures { p with ended := p.ended ++ [(request, outcome)] } =
      p.failures + match outcome with
        | .failed _ => 1
        | _ => 0 := by
  rw [failures, List.countP_append]
  cases outcome with
  | notConnected error => rfl
  | failed error => rfl
  | published response => rfl

theorem Ok.publish (h : p.Ok) (hidle : p.stage = none) (topic message key : String) :
    (p.publish topic message key).Ok := by
  have hunderWay : p.underWay = [] := by rw [underWay, hidle]
  have hinUse : p.inUse = [] := by rw [inUse, hidle]
  have hrequests := h.requests
  have hconnections := h.connections
  rw [hunderWay, List.append_nil] at hrequests
  rw [hinUse] at hconnections
  refine ⟨?_, h.maxConnections, hconnections⟩
  show p.ended.map Prod.fst ++ _ = p.requests ++ _
  rw [hrequests]
  rfl

theorem Ok.connect (h : p.Ok) (outcome : Except String Unit) : (p.connect outcome).Ok := by
  rw [Producer.connect]
  split
  · rename_i request hstage
    have hrequests := h.requests
    have hconnections := h.connections
    rw [underWay, hstage] at hrequests
    rw [inUse, hstage, List.append_nil] at hconnections
    rcases hconnections with ⟨hempty, hopened⟩ | ⟨hone, hopened⟩
    · -- there is none, so one is opened, or the call fails
      rw [ConnectionPool.getConnection_of_empty hempty]
      cases outcome with
      | ok _ =>
          refine ⟨hrequests, h.maxConnections, .inr ⟨?_, ?_⟩⟩
          · show p.connectionPool.connections ++ [p.opened] = [(if _ then p.opened + 1 else _) - 1]
            rw [hempty, if_pos (by simp [Except.isOk, Except.toBool])]
            rfl
          · show (if _ then p.opened + 1 else p.opened) = p.failures + 1
            rw [if_pos (by simp [hempty, Except.isOk, Except.toBool]), hopened]
      | error e =>
          refine ⟨?_, h.maxConnections, .inl ⟨?_, ?_⟩⟩
          · show (p.ended ++ [_]).map Prod.fst ++ [] = _
            rw [List.append_nil, List.map_append]
            exact hrequests
          · show p.connectionPool.connections ++ [] = _
            rw [hempty]
            rfl
          · show p.opened = _
            rw [hopened]
            exact (failures_concat p request (.notConnected _)).symm
    · -- the only one is used again
      rw [ConnectionPool.getConnection_of_one hone]
      refine ⟨hrequests, h.maxConnections, .inr ⟨?_, ?_⟩⟩
      · show [p.opened - 1] = [(if _ then p.opened + 1 else p.opened) - 1]
        rw [if_neg (by simp [hone])]
      · show (if _ then p.opened + 1 else p.opened) = p.failures + 1
        rw [if_neg (by simp [hone]), hopened]
  · exact h

theorem requests_connect (p : Producer) (outcome : Except String Unit) :
    (p.connect outcome).requests = p.requests := by
  rw [Producer.connect]
  split
  · dsimp only
    split
    · rfl
    · rfl
  · rfl

theorem requests_answer (p : Producer) (response : Except String PublishResponse) :
    (p.answer response).requests = p.requests := by
  rw [Producer.answer]
  split
  · split
    · rfl
    · rfl
  · rfl

theorem Ok.answer (h : p.Ok) (response : Except String PublishResponse) : (p.answer response).Ok := by
  rw [Producer.answer]
  split
  · rename_i request client hstage
    have hrequests := h.requests
    have hconnections := h.connections
    rw [underWay, hstage] at hrequests
    rw [inUse, hstage] at hconnections
    -- the connection in use is the only one
    obtain ⟨hempty, hclient, hopened⟩ : p.connectionPool.connections = [] ∧
        client = p.opened - 1 ∧ p.opened = p.failures + 1 := by
      rcases hconnections with ⟨hnone, -⟩ | ⟨hone, hopened⟩
      · exact absurd hnone (by simp)
      · rw [List.append_eq_singleton_iff] at hone
        rcases hone with ⟨hnone, hclient⟩ | ⟨-, hclient⟩
        · exact ⟨hnone, List.singleton_inj.mp hclient, hopened⟩
        · exact absurd hclient (by simp)
    cases response with
    | ok result =>
        have hreturn : p.connectionPool.returnConnection client =
            { p.connectionPool with connections := [client] } :=
          ConnectionPool.returnConnection_of_empty hempty (by rw [h.maxConnections]; decide) client
        refine ⟨?_, ?_, .inr ⟨?_, ?_⟩⟩
        · show (p.ended ++ [_]).map Prod.fst ++ [] = _
          rw [List.append_nil, List.map_append]
          exact hrequests
        · show (p.connectionPool.returnConnection client).maxConnections = 10
          rw [hreturn]
          exact h.maxConnections
        · show (p.connectionPool.returnConnection client).connections ++ [] = [p.opened - 1]
          rw [hreturn, hclient]
          rfl
        · show p.opened = _
          rw [hopened]
          exact congrArg (· + 1) (failures_concat p request (.published result)).symm
    | error e =>
        refine ⟨?_, h.maxConnections, .inl ⟨?_, ?_⟩⟩
        · show (p.ended ++ [_]).map Prod.fst ++ [] = _
          rw [List.append_nil, List.map_append]
          exact hrequests
        · show p.connectionPool.connections ++ [] = []
          rw [hempty]
          rfl
        · show p.opened = _
          rw [hopened]
          exact (failures_concat p request (.failed e)).symm
  · exact h

end Producer

namespace SimpleStream

/-! ### One message after the other -/

namespace Processing

/-- Where the messages are, and what has become of them. -/
structure InOrder (outputTopic : String) (processor : String → Option String) (s : Processing) :
    Prop where
  passed : s.feed.channel.received ++ s.feed.channel.buffer ++
    s.feed.stage.unsent.map ConsumeResponse.payload = s.feed.messages.map ConsumeResponse.payload
  waiting : s.feed.channel.buffer.length ≤ 100
  acknowledged : s.feed.acknowledged ++
    s.feed.stage.unacknowledged.map ConsumeResponse.messageId =
      s.feed.messages.map ConsumeResponse.messageId
  transformed : s.producer.requests.map PublishRequest.payload =
    s.feed.channel.received.filterMap processor
  addressed : ∀ request ∈ s.producer.requests, request.topic = outputTopic
  ended : s.producer.ended.map Prod.fst ++ s.producer.underWay = s.producer.requests
  /-- When the task ends there is nothing left to do. -/
  complete : s.isRunning = false → s.producer.requests.map PublishRequest.payload =
    s.feed.messages.filterMap fun message => processor message.payload

/-- What the steps keep. -/
structure Ok (outputTopic : String) (processor : String → Option String) (s : Processing) : Prop where
  feed : s.feed.Ok
  producer : s.producer.Ok
  transformed : s.producer.requests.map PublishRequest.payload =
    s.feed.channel.received.filterMap processor
  addressed : ∀ request ∈ s.producer.requests, request.topic = outputTopic
  complete : s.isRunning = false → s.feed.stage = .ended ∧ s.feed.channel.buffer = []

variable {outputTopic : String} {processor : String → Option String} {s : Processing}

theorem ok_start (producerId : String) : (start producerId).Ok outputTopic processor :=
  ⟨Feed.ok_start, Producer.ok_new producerId, rfl, fun request h => absurd h List.not_mem_nil,
    fun h => by cases h⟩

theorem Ok.step (h : s.Ok outputTopic processor) (e : ProcessEvent) :
    (s.step outputTopic processor e).Ok outputTopic processor := by
  cases e with
  | feed e =>
      refine ⟨h.feed.step e, h.producer, ?_, h.addressed, fun hended => ?_⟩
      · show s.producer.requests.map _ = (s.feed.step e).channel.received.filterMap processor
        rw [Feed.received_step]
        exact h.transformed
      · show (s.feed.step e).stage = .ended ∧ (s.feed.step e).channel.buffer = []
        rw [Feed.step_of_ended (h.complete hended).1]
        exact h.complete hended
  | connect outcome =>
      have hrequests := Producer.requests_connect s.producer outcome
      refine ⟨h.feed, h.producer.connect outcome, ?_, fun request hrequest => ?_, h.complete⟩
      · exact (congrArg _ hrequests).trans h.transformed
      · exact h.addressed request (hrequests ▸ hrequest)
  | answer response =>
      have hrequests := Producer.requests_answer s.producer response
      refine ⟨h.feed, h.producer.answer response, ?_, fun request hrequest => ?_, h.complete⟩
      · exact (congrArg _ hrequests).trans h.transformed
      · exact h.addressed request (hrequests ▸ hrequest)
  | recv timestamp =>
      rw [Processing.step]
      split
      · rename_i hidle
        have hrunning : ¬ s.isRunning = false := by
          rw [hidle.1]
          decide
        split
        · rename_i message channel hrecv
          obtain ⟨-, -, hreceived, -⟩ := Mpsc.recv?_eq_some hrecv
          have hfilter : channel.received.filterMap processor =
              s.feed.channel.received.filterMap processor ++ (processor message).toList := by
            rw [hreceived, List.filterMap_append]
            cases hprocessor : processor message with
            | none => simp [hprocessor]
            | some transformed => simp [hprocessor]
          dsimp only
          split
          · rename_i transformed hprocessor
            refine ⟨h.feed.recv hrecv, h.producer.publish hidle.2 .., ?_, fun request hrequest => ?_,
              fun hended => absurd hended hrunning⟩
            · show (s.producer.requests ++ [_]).map _ = _
              rw [List.map_append, h.transformed, hfilter, hprocessor]
              rfl
            · cases List.mem_append.mp hrequest with
              | inl hrequest => exact h.addressed request hrequest
              | inr hrequest =>
                  rw [List.mem_singleton.mp hrequest]
          · rename_i hprocessor
            refine ⟨h.feed.recv hrecv, h.producer, ?_, h.addressed,
              fun hended => absurd hended hrunning⟩
            show _ = channel.received.filterMap processor
            rw [hfilter, hprocessor, Option.toList_none, List.append_nil]
            exact h.transformed
        · rename_i hrecv
          refine ⟨h.feed, h.producer, h.transformed, h.addressed, fun hended => ?_⟩
          exact ⟨not_not.mp (of_decide_eq_false hended), Mpsc.recv?_eq_none.mp hrecv⟩
      · exact h

theorem Ok.inOrder (h : s.Ok outputTopic processor) : s.InOrder outputTopic processor := by
  refine ⟨h.feed.passed, h.feed.length_buffer_le, h.feed.acknowledged, h.transformed, h.addressed,
    h.producer.requests, fun hended => ?_⟩
  obtain ⟨hstage, hbuffer⟩ := h.complete hended
  have hpassed := h.feed.passed
  rw [hstage, hbuffer, List.append_nil] at hpassed
  have hreceived : s.feed.channel.received = s.feed.messages.map ConsumeResponse.payload :=
    (List.append_nil _).symm.trans hpassed
  rw [h.transformed, hreceived, List.filterMap_map]
  rfl

theorem ok_run (outputTopic producerId : String) (processor : String → Option String)
    (events : List ProcessEvent) :
    (events.foldl (step outputTopic processor) (start producerId)).Ok outputTopic processor :=
  List.foldlRecOn events _ (ok_start producerId) fun _ h e _ => h.step e

/-- **Messages are processed in order.**  In every run of the task, its consumer and its
producer, whatever fails: the payloads are received in the order of the stream, each is
transformed once, and the requests that come out of it are made one after the other; when the
task has ended, all of them have been made. -/
theorem processed_in_order (outputTopic producerId : String) (processor : String → Option String)
    (events : List ProcessEvent) :
    (events.foldl (step outputTopic processor) (start producerId)).InOrder outputTopic processor :=
  (ok_run outputTopic producerId processor events).inOrder

/-- **Connections are used again.**  The producer of the task never has more than one, and as
many have been opened as it has and as have been dropped after a failure. -/
theorem connections_reused (outputTopic producerId : String) (processor : String → Option String)
    (events : List ProcessEvent) :
    let p := (events.foldl (step outputTopic processor) (start producerId)).producer
    (p.connectionPool.connections ++ p.inUse).length ≤ 1 ∧
      p.opened = p.failures + (p.connectionPool.connections ++ p.inUse).length := by
  intro p
  rcases (ok_run outputTopic producerId processor events).producer.connections with
    ⟨hnone, hopened⟩ | ⟨hone, hopened⟩
  · rw [hnone]
    exact ⟨Nat.zero_le _, hopened⟩
  · rw [hone]
    exact ⟨Nat.le_refl _, hopened⟩

end Processing

/-! ### Windows -/

/-- The aggregate that has still to be passed on. -/
def AggregateStage.result : AggregateStage → List String
  | .selecting => []
  | .sending _ result => [result]

namespace Aggregation

/-- What has been received and is in no window yet. -/
def unwindowed (s : Aggregation) : List String :=
  match s.stage with
  | .selecting => s.buffer
  | .sending .. => []

/-- How the messages are divided into windows. -/
structure Windowed (aggregator : List String → String) (s : Aggregation) : Prop where
  passed : s.feed.channel.received ++ s.feed.channel.buffer ++
    s.feed.stage.unsent.map ConsumeResponse.payload = s.feed.messages.map ConsumeResponse.payload
  received : s.windows.flatten ++ s.unwindowed = s.feed.channel.received
  nonempty : ∀ window ∈ s.windows, window ≠ []
  sent : s.output.isOpen = true →
    (s.output.received ++ s.output.buffer).map Prod.snd ++ s.stage.result = s.windows.map aggregator
  read : s.output.received.map Prod.snd <+: s.windows.map aggregator
  waiting : s.output.buffer.length ≤ 100

/-- What the steps keep. -/
structure Ok (aggregator : List String → String) (s : Aggregation) : Prop where
  feed : s.feed.Ok
  capacity : s.output.capacity = 100
  received : s.windows.flatten ++ s.unwindowed = s.feed.channel.received
  nonempty : ∀ window ∈ s.windows, window ≠ []
  sent : s.output.isOpen = true →
    s.output.sent.map Prod.snd ++ s.stage.result = s.windows.map aggregator
  read : s.output.sent.map Prod.snd <+: s.windows.map aggregator

variable {aggregator : List String → String} {s : Aggregation}

theorem ok_start : start.Ok aggregator :=
  ⟨Feed.ok_start, rfl, rfl, fun _ h => absurd h List.not_mem_nil, fun _ => rfl, List.prefix_rfl⟩

/-- What is in no window waits in the buffer. -/
theorem Ok.received_selecting (h : s.Ok aggregator) (hstage : s.stage = .selecting) :
    s.windows.flatten ++ s.buffer = s.feed.channel.received := by
  have hreceived := h.received
  rwa [unwindowed, hstage] at hreceived

theorem Ok.send (h : s.Ok aggregator) {key result : String} (hstage : s.stage = .sending key result)
    {output : Mpsc (String × String)} (hsend : s.output.send? (key, result) = some output) :
    Ok aggregator { s with stage := .selecting, buffer := [], output } := by
  have hcapacity := (Mpsc.capacity_send? hsend).trans h.capacity
  have hreceived : s.windows.flatten ++ [] = s.feed.channel.received := by
    have hold := h.received
    rwa [unwindowed, hstage] at hold
  rcases Mpsc.send?_cases hsend with ⟨hopen, -, hsent, -, -⟩ | ⟨hclosed, rfl⟩
  · -- the aggregate is accepted
    have hresults : output.sent.map Prod.snd = s.windows.map aggregator := by
      rw [hsent, List.map_append, ← h.sent hopen, hstage]
      rfl
    refine ⟨h.feed, hcapacity, hreceived, h.nonempty, fun _ => ?_, ?_⟩
    · show output.sent.map Prod.snd ++ [] = _
      rw [List.append_nil, hresults]
    · show output.sent.map Prod.snd <+: _
      rw [hresults]
  · -- it is lost, as nobody waits for it
    refine ⟨h.feed, hcapacity, hreceived, h.nonempty, fun hopen => ?_, h.read⟩
    have hcontra : s.output.isOpen = true := hopen
    rw [hclosed] at hcontra
    cases hcontra

theorem Ok.step (h : s.Ok aggregator) (e : AggregateEvent) : (s.step aggregator e).Ok aggregator := by
  cases e with
  | feed e =>
      refine ⟨h.feed.step e, h.capacity, ?_, h.nonempty, h.sent, h.read⟩
      show _ = (s.feed.step e).channel.received
      rw [Feed.received_step]
      exact h.received
  | recv =>
      rw [Aggregation.step]
      split
      · rename_i hstage
        split
        · rename_i message channel hrecv
          obtain ⟨-, -, hreceived, -⟩ := Mpsc.recv?_eq_some hrecv
          refine ⟨h.feed.recv hrecv, h.capacity, ?_, h.nonempty, h.sent, h.read⟩
          show s.windows.flatten ++ unwindowed { s with buffer := s.buffer ++ [message] } =
            channel.received
          rw [unwindowed, hstage, hreceived, ← h.received_selecting hstage, List.append_assoc]
        · exact h
      · exact h
  | tick timestamp =>
      rw [Aggregation.step]
      split
      · rename_i hready
        refine ⟨h.feed, h.capacity, ?_, fun window hwindow => ?_, fun hopen => ?_, ?_⟩
        · show (s.windows ++ [s.buffer]).flatten ++ [] = s.feed.channel.received
          rw [List.append_nil, List.flatten_append, List.flatten_singleton]
          exact h.received_selecting hready.1
        · cases List.mem_append.mp hwindow with
          | inl hwindow => exact h.nonempty window hwindow
          | inr hwindow =>
              rw [List.mem_singleton.mp hwindow]
              exact hready.2
        · have hsent := h.sent hopen
          rw [hready.1, AggregateStage.result, List.append_nil] at hsent
          show s.output.sent.map Prod.snd ++ [aggregator s.buffer] = (s.windows ++ [s.buffer]).map _
          rw [hsent, List.map_append]
          rfl
        · show s.output.sent.map Prod.snd <+: (s.windows ++ [s.buffer]).map aggregator
          rw [List.map_append]
          exact h.read.trans (List.prefix_append _ _)
      · exact h
  | send =>
      rw [Aggregation.step]
      split
      · rename_i key result hstage
        split
        · rename_i output hsend
          exact h.send hstage hsend
        · exact h
      · exact h
  | read =>
      rw [Aggregation.step]
      split
      · rename_i aggregate output hread
        obtain ⟨hopen, hsent, -, -⟩ := Mpsc.recv?_eq_some hread
        refine ⟨h.feed, (Mpsc.capacity_recv? hread).trans h.capacity, h.received, h.nonempty,
          fun hstill => ?_, ?_⟩
        · show output.sent.map Prod.snd ++ _ = _
          rw [hsent]
          exact h.sent (hopen.symm.trans hstill)
        · show output.sent.map Prod.snd <+: _
          rw [hsent]
          exact h.read
      · exact h
  | dropReceiver =>
      refine ⟨h.feed, h.capacity, h.received, h.nonempty, fun hopen => ?_, h.read⟩
      cases hopen

theorem Ok.windowed (h : s.Ok aggregator) : s.Windowed aggregator := by
  refine ⟨h.feed.passed, h.received, h.nonempty, fun hopen => ?_, ?_, ?_⟩
  · rw [s.output.eq_sent hopen]
    exact h.sent hopen
  · have hstart : s.output.received <+: s.output.sent :=
      (List.prefix_append _ _).trans s.output.prefix_sent
    exact (hstart.map Prod.snd).trans h.read
  · exact h.capacity ▸ s.output.length_buffer

/-- A tick closes the window, unless the task waits for the application. -/
theorem Ok.windows_tick (h : s.Ok aggregator) (timestamp : Int64) (hstage : s.stage = .selecting) :
    (s.step aggregator (.tick timestamp)).windows.flatten = s.feed.channel.received := by
  have hreceived := h.received_selecting hstage
  rw [Aggregation.step]
  split
  · show (s.windows ++ [s.buffer]).flatten = s.feed.channel.received
    rw [List.flatten_append, List.flatten_singleton]
    exact hreceived
  · rename_i hidle
    have hempty : s.buffer = [] := by
      by_contra hbuffer
      exact hidle ⟨hstage, hbuffer⟩
    rw [← hreceived, hempty, List.append_nil]

theorem ok_run (aggregator : List String → String) (events : List AggregateEvent) :
    (events.foldl (step aggregator) start).Ok aggregator :=
  List.foldlRecOn events _ ok_start fun _ h e _ => h.step e

/-- **The windows divide the messages.**  In every run of the task, its consumer and the
application: each payload that has been received is in one window, in the order of the stream,
and no window is empty; while the application waits for them it gets the aggregates of all
windows, in order, and if it stops waiting it has got those of the first ones.  A tick leaves
nothing that has been received out of the windows. -/
theorem windows_partition (aggregator : List String → String) (events : List AggregateEvent) :
    (events.foldl (step aggregator) start).Windowed aggregator ∧
      ∀ timestamp, (events.foldl (step aggregator) start).stage = .selecting →
        ((events ++ [AggregateEvent.tick timestamp]).foldl (step aggregator) start).windows.flatten =
          (events.foldl (step aggregator) start).feed.channel.received := by
  refine ⟨(ok_run aggregator events).windowed, fun timestamp hstage => ?_⟩
  rw [List.foldl_concat]
  exact (ok_run aggregator events).windows_tick timestamp hstage

end Aggregation

end SimpleStream

end Rafka
