/-
Rafka/Publish.lean

Publish handlers and the background flusher side by side
(`Broker::publish` and `Broker::serve` in `crates/broker/src/broker.rs`).

A handler makes sure of its topic, puts its request into the batcher, pops
the batches that are ready, processes them and answers with success; its own
request may still be waiting in the batcher then, for another handler or for
the flusher to pop.  Handlers and flusher share the batcher, the framing
buffers and the storage, and interleave at every operation on these.

Every request carries the number of its handler as a tag, and the state
records which requests were put into the batcher (`added`) and which were
handed to the storage (`persisted`), so that two requests with the same
content can be told apart.  The files of the partitions can be recovered, so
`ensure_topic` does not panic (`Rafka.Topics` has the case), a handler runs to
its end, and `append` is one step that returns.

A batch loses every message but its first, and all of them if the framing
fails.  Main result (`conserved_of_lossless`): in a run in which every popped
batch holds one message and every append to the framing buffers finds room,
each acknowledged request is at every point in exactly one place: in the
batcher, in a popped batch, or in the log of its topic.
-/
import Rafka.Batching
import Rafka.Broker

namespace Rafka

/-- A request and the number of the handler it belongs to. -/
structure Tagged where
  tag : Nat
  req : PublishRequest
deriving DecidableEq

/-! ### Processing popped batches -/

/-- Where the processing of a batch is. -/
inductive Progress
  /-- In the call of `ZeroCopyProcessor::process_batch`. -/
  | framing (messages : List Tagged) (call : FramingCall)
  /-- In the loop; `rest` are the requests the loop does not reach. -/
  | loop (sender : Channel) (todo : List (Tagged × List UInt8)) (rest : List Tagged)

/-- Popped batches: the one being processed and those to come. -/
structure Work where
  current : Option Progress
  queue : List (List Tagged)

namespace Work

/-- The requests of a batch. -/
def requests (messages : List Tagged) : List PublishRequest := messages.map Tagged.req

/-- The next operation on popped batches, with the requests it hands to the
storage. -/
def step (channel : Broker → Channel × Broker) (fresh : Fresh) (b : Broker) (w : Work) :
    Work × Broker × List Tagged :=
  match w.current with
  | none =>
      match w.queue with
      | [] => (w, b, [])
      | messages :: queue =>
          if messages.isEmpty then (⟨none, queue⟩, b, [])
          else
            let call := FramingCall.invoke b.zeroCopyProcessor
              (Broker.payloads (requests messages))
            (⟨some (.framing messages call), queue⟩, b, [])
  | some (.framing messages call) =>
      match call.status with
      | .running _ =>
          let (call, processor) := call.step b.zeroCopyProcessor
          ({ w with current := some (.framing messages call) },
            { b with zeroCopyProcessor := processor }, [])
      | .returned result =>
          let (sender, b) := channel b
          -- the zip runs over the framing result: at most one item
          let processed := Broker.resultIter result
          let progress := Progress.loop sender (messages.zip processed)
            (messages.drop processed.length)
          ({ w with current := some progress }, b, [])
  | some (.loop sender ((message, payload) :: todo) rest) =>
      -- the request is handed to the storage whether or not the append succeeds
      ({ w with current := some (.loop sender todo rest) },
        Broker.processNext sender b fresh message.req payload, [message])
  | some (.loop _ [] _) => ({ w with current := none }, b, [])

/-- All batches are processed. -/
def isDone (w : Work) : Bool := w.current.isNone && w.queue.isEmpty

/-- The requests in popped batches that are still being processed. -/
def inProcess (w : Work) : List Tagged :=
  (match w.current with
    | none => []
    | some (.framing messages _) => messages
    | some (.loop _ todo rest) => todo.map Prod.fst ++ rest) ++ w.queue.flatten

/-- If the next operation appends to a framing buffer, there is room. -/
def fits (w : Work) (p : ZeroCopyProcessor) : Bool :=
  match w.current with
  | some (.framing _ ⟨_, .running (.append side data :: _)⟩) =>
      (p.buffer side).buffer.length + data.length ≤ (p.buffer side).maxSize
  | _ => true

end Work

/-! ### Handlers and flusher -/

/-- Where a publish handler is. -/
inductive HandlerPhase
  /-- The message belongs to another broker. -/
  | forwarded
  | ensureTopic
  | addMessage
  | getReadyBatches
  | processing (work : Work)
  | respond
  /-- `publish` has returned success. -/
  | acknowledged
  /-- `publish` has returned an error. -/
  | failed

/-- A call of `publish`. -/
structure Handler where
  req : PublishRequest
  phase : HandlerPhase

/-- The requests in batches a handler has popped. -/
def Handler.inProcess (h : Handler) : List Tagged :=
  match h.phase with
  | .processing work => work.inProcess
  | _ => []

/-- What a step takes from the environment. -/
structure StepEnv where
  now : Nat → Instant
  fresh : Fresh

/-- A broker with its handlers and its flusher. -/
structure PublishState where
  broker : Broker
  totalPartitions : UInt32
  /-- The keys of `Broker::topics`. -/
  topics : Finset String
  batcher : BatchedProcessor Tagged
  handlers : List Handler
  /-- The batches the flusher has popped. -/
  flusher : Work
  /-- What the files of the partitions held when the broker came up. -/
  recovered : String → Log
  added : List Tagged
  persisted : List Tagged

/-- What happens next. -/
inductive PublishLabel
  | publish (req : PublishRequest)
  | handler (i : Nat) (env : StepEnv)
  | flusher (env : StepEnv)

namespace PublishState

/-- `Broker::hash_key`. -/
def hashKey (key : String) : UInt32 :=
  (utf8 key).foldl (fun acc b => acc + b.toUInt32) 0

/-- `Broker::owns_partition`; a broker has at least one partition. -/
def ownsPartition (s : PublishState) (key : String) : Bool :=
  hashKey key % s.totalPartitions = s.broker.partitionId

/-- `Broker::ensure_topic`, as one step. -/
def ensureTopic (s : PublishState) (topic : String) : PublishState :=
  if topic ∈ s.topics then s
  else
    let storage := (s.broker.storage.createTopic topic).createPartition topic
      s.broker.partition (s.recovered topic)
    { s with
      topics := insert topic s.topics
      broker := { s.broker with storage := storage } }

/-- Put a handler into its next phase. -/
def setPhase (s : PublishState) (i : Nat) (h : Handler) (phase : HandlerPhase) :
    PublishState :=
  { s with handlers := s.handlers.set i { h with phase := phase } }

/-- The next operation of handler `i`. -/
def stepHandler (s : PublishState) (i : Nat) (h : Handler) (env : StepEnv) : PublishState :=
  match h.phase with
  | .ensureTopic => (s.ensureTopic h.req.topic).setPhase i h .addMessage
  | .addMessage =>
      match s.batcher.addMessage ⟨i, h.req⟩ (env.now 0) with
      | .ok batcher =>
          setPhase { s with batcher := batcher, added := s.added ++ [⟨i, h.req⟩] } i h
            .getReadyBatches
      | .error _ =>
          match s.broker.processSingleMessage env.fresh h.req with
          | (.ok _, broker) =>
              setPhase
                { s with
                  broker := broker
                  added := s.added ++ [⟨i, h.req⟩]
                  persisted := s.persisted ++ [⟨i, h.req⟩] } i h .acknowledged
          | (.error _, broker) => setPhase { s with broker := broker } i h .failed
  | .getReadyBatches =>
      let (ready, batcher) := s.batcher.getReadyBatches env.now
      setPhase { s with batcher := batcher } i h
        (.processing ⟨none, ready.map MessageBatch.messages⟩)
  | .processing work =>
      if work.isDone then s.setPhase i h .respond
      else
        let (work, broker, stored) := work.step Broker.ensureChannel env.fresh s.broker
        setPhase { s with broker := broker, persisted := s.persisted ++ stored } i h
          (.processing work)
  | .respond =>
      setPhase
        { s with broker := { s.broker with messageCounter := s.broker.messageCounter + 1 } } i h
        .acknowledged
  | .forwarded | .acknowledged | .failed => s

/-- The next operation of the flusher. -/
def stepFlusher (s : PublishState) (env : StepEnv) : PublishState :=
  if s.flusher.isDone then
    let (ready, batcher) := s.batcher.getReadyBatches env.now
    { s with batcher := batcher, flusher := ⟨none, ready.map MessageBatch.messages⟩ }
  else
    let (work, broker, stored) := s.flusher.step Broker.flusherChannel env.fresh s.broker
    { s with broker := broker, flusher := work, persisted := s.persisted ++ stored }

/-- One step of the system. -/
def step (s : PublishState) : PublishLabel → PublishState
  | .publish req =>
      { s with
        handlers := s.handlers ++
          [⟨req, if s.ownsPartition req.key then .ensureTopic else .forwarded⟩] }
  | .handler i env =>
      match s.handlers[i]? with
      | some h => s.stepHandler i h env
      | none => s
  | .flusher env => s.stepFlusher env

/-- A broker as `Broker::new` makes it, over files that hold `recovered`. -/
def start (partitionId totalPartitions : UInt32) (recovered : String → Log) : PublishState where
  broker := {
    partitionId := partitionId
    storage := ⟨∅⟩
    zeroCopyProcessor := .new 1000
    messageCounter := 0
    channels := ∅
    nextChannel := 0
    sent := [] }
  totalPartitions := totalPartitions
  topics := ∅
  batcher := .new 100 (10 * 10 ^ 6)
  handlers := []
  flusher := ⟨none, []⟩
  recovered := recovered
  added := []
  persisted := []

/-! ### What is to hold -/

/-- The requests in batches still being processed. -/
def inProcess (s : PublishState) : List Tagged :=
  s.handlers.flatMap Handler.inProcess ++ s.flusher.inProcess

/-- The payloads of the requests to a topic, in order. -/
def payloadsTo (topic : String) (requests : List Tagged) : Log :=
  (requests.filter fun t => t.req.topic = topic).map fun t => utf8 t.req.payload

/-- No acknowledged request is lost or duplicated. -/
structure Conserved (s : PublishState) : Prop where
  /-- An acknowledged request is in exactly one place, once. -/
  once : ∀ i h, s.handlers[i]? = some h → h.phase = .acknowledged →
    s.batcher.pending.count ⟨i, h.req⟩ + s.inProcess.count ⟨i, h.req⟩ +
      s.persisted.count ⟨i, h.req⟩ = 1
  /-- The log of a topic holds the payloads handed to it, and nothing else
  but what it held before. -/
  logged : ∀ topic ∈ s.topics, s.broker.storage.log? topic s.broker.partition =
    some (s.recovered topic ++ payloadsTo topic s.persisted)
  /-- A request handed to the storage is in the log of its topic. -/
  stored : ∀ t ∈ s.persisted, t.req.topic ∈ s.topics
  /-- When nothing is waiting, every acknowledged request is stored. -/
  settled : s.batcher.pending = [] → s.inProcess = [] →
    ∀ i h, s.handlers[i]? = some h → h.phase = .acknowledged → ⟨i, h.req⟩ ∈ s.persisted

/-- Every batch that is ready holds one message. -/
def popsSingles (p : BatchedProcessor Tagged) (now : Nat → Instant) : Bool :=
  (p.getReadyBatches now).1.all fun batch => batch.messages.length = 1

/-- The step pops batches of one message only, and an append to a framing
buffer finds room. -/
def lossless (s : PublishState) : PublishLabel → Bool
  | .publish _ => true
  | .handler i env =>
      match s.handlers[i]? with
      | some ⟨_, .getReadyBatches⟩ => popsSingles s.batcher env.now
      | some ⟨_, .processing work⟩ => work.fits s.broker.zeroCopyProcessor
      | _ => true
  | .flusher env =>
      if s.flusher.isDone then popsSingles s.batcher env.now
      else s.flusher.fits s.broker.zeroCopyProcessor

end PublishState

/-! ### Batches of one message -/

/-- A batch of one message, which the framing has not refused. -/
inductive Progress.Single : Progress → Prop
  | framing (t : Tagged) (payloads : List (List UInt8)) (ops : List BufferOp) :
      Single (.framing [t] ⟨payloads, .running ops⟩)
  | framed (t : Tagged) (payloads : List (List UInt8)) (bytes : List UInt8) :
      Single (.framing [t] ⟨payloads, .returned (.ok bytes)⟩)
  | loop (sender : Channel) (todo : List (Tagged × List UInt8)) : Single (.loop sender todo [])

namespace Work

/-- Popped batches of one message each. -/
structure Single (w : Work) : Prop where
  current : ∀ p ∈ w.current, p.Single
  queue : ∀ messages ∈ w.queue, messages.length = 1

/-- The storage after requests have been handed to it. -/
def storeAll (partition : Int32) (storage : LogStore) (requests : List Tagged) : LogStore :=
  requests.foldl
    (fun storage t => (storage.append t.req.topic partition (utf8 t.req.payload)).2) storage

/-- What one operation on popped batches does: requests go from the batches to
the storage, and none disappears. -/
structure Moves (b : Broker) (w : Work) (r : Work × Broker × List Tagged) : Prop where
  single : r.1.Single
  count : ∀ t, r.1.inProcess.count t + r.2.2.count t = w.inProcess.count t
  storage : r.2.1.storage = storeAll b.partition b.storage r.2.2
  partitionId : r.2.1.partitionId = b.partitionId
  batchSize : r.2.1.zeroCopyProcessor.batchSize = b.zeroCopyProcessor.batchSize

variable {channel : Broker → Channel × Broker} {b : Broker} {w : Work}

theorem inProcess_of_isDone (h : w.isDone = true) : w.inProcess = [] := by
  obtain ⟨current, queue⟩ := w
  simp only [isDone, Bool.and_eq_true, Option.isNone_iff_eq_none, List.isEmpty_iff] at h
  rw [h.1, h.2]
  rfl

/-- A call whose appends find room goes on or returns the framing. -/
theorem progress_framingStep {p : ZeroCopyProcessor} {t : Tagged}
    {payloads : List (List UInt8)} {ops : List BufferOp} {queue : List (List Tagged)}
    (hfits : fits ⟨some (.framing [t] ⟨payloads, .running ops⟩), queue⟩ p = true) :
    (Progress.framing [t] (FramingCall.step ⟨payloads, .running ops⟩ p).1).Single := by
  cases ops with
  | nil => exact .framing t payloads []
  | cons op ops =>
      cases op with
      | clear side => exact .framing t payloads ops
      | getBytes => exact .framed t payloads _
      | append side data =>
          have hroom : ¬ (p.buffer side).buffer.length + data.length > (p.buffer side).maxSize := by
            simpa [fits] using hfits
          simp only [FramingCall.step, ZeroCopyProcessor.exec, ZeroCopyBuffer.append, if_neg hroom]
          exact .framing t payloads ops

/-- A turn of the loop appends the request to its log. -/
theorem processNext_frame (sender : Channel) (b : Broker) (fresh : Fresh)
    (req : PublishRequest) (payload : List UInt8) :
    (Broker.processNext sender b fresh req payload).storage =
        (b.storage.append req.topic b.partition (utf8 req.payload)).2 ∧
      (Broker.processNext sender b fresh req payload).partitionId = b.partitionId ∧
      (Broker.processNext sender b fresh req payload).zeroCopyProcessor =
        b.zeroCopyProcessor := by
  unfold Broker.processNext Broker.store
  obtain ⟨offset, storage⟩ := b.storage.append req.topic b.partition (utf8 req.payload)
  cases offset with
  | none => exact ⟨rfl, rfl, rfl⟩
  | some offset => exact ⟨rfl, rfl, rfl⟩

/-- **Step lemma for popped batches** of one message. -/
theorem Single.step (h : w.Single) (hch : Broker.ChannelFrame channel) (fresh : Fresh)
    (hsize : 1 ≤ b.zeroCopyProcessor.batchSize)
    (hfits : w.fits b.zeroCopyProcessor = true) :
    Moves b w (w.step channel fresh b) := by
  obtain ⟨current, queue⟩ := w
  obtain ⟨hcurrent, hqueue⟩ := h
  cases current with
  | none =>
      cases queue with
      | nil => exact ⟨⟨hcurrent, hqueue⟩, fun t => rfl, rfl, rfl, rfl⟩
      | cons messages queue =>
          -- a batch of one passes the check of the batch size
          obtain ⟨t, rfl⟩ := List.length_eq_one_iff.mp (hqueue messages List.mem_cons_self)
          have hcall : FramingCall.invoke b.zeroCopyProcessor (Broker.payloads (requests [t])) =
              ⟨Broker.payloads (requests [t]),
                .running (ZeroCopyProcessor.processOps (Broker.payloads (requests [t])))⟩ := by
            have hlen : ¬ (Broker.payloads (requests [t])).length >
                b.zeroCopyProcessor.batchSize := Nat.not_lt.mpr hsize
            simp only [FramingCall.invoke, if_neg hlen]
          simp only [Work.step, List.isEmpty_cons, Bool.false_eq_true, if_false, hcall]
          refine ⟨⟨?_, fun ms hms => hqueue ms (List.mem_cons_of_mem _ hms)⟩, ?_, rfl, rfl, rfl⟩
          · rintro p ⟨⟩
            exact .framing t _ _
          · intro t'
            simp [inProcess]
  | some progress =>
      cases hcurrent progress rfl with
      | framing t payloads ops =>
          have hsingle := progress_framingStep hfits
          refine ⟨⟨?_, hqueue⟩, fun t => rfl, rfl, rfl, ?_⟩
          · rintro p ⟨⟩
            exact hsingle
          · exact (FramingCall.sameBounds_step b.zeroCopyProcessor _).1
      | framed t payloads bytes =>
          -- the framing has succeeded, so the loop covers the one request
          refine ⟨⟨?_, hqueue⟩, fun t' => ?_, ?_, ?_, ?_⟩
          · rintro p ⟨⟩
            exact .loop _ _
          · simp [Work.step, inProcess, Broker.resultIter]
          · exact hch.storage b
          · exact hch.partitionId b
          · exact congrArg ZeroCopyProcessor.batchSize (hch.processor b)
      | loop sender todo =>
          cases todo with
          | nil => exact ⟨⟨by rintro p ⟨⟩, hqueue⟩, fun t => rfl, rfl, rfl, rfl⟩
          | cons next todo =>
              obtain ⟨t, payload⟩ := next
              obtain ⟨hstorage, hid, hproc⟩ := processNext_frame sender b fresh t.req payload
              refine ⟨⟨?_, hqueue⟩, fun t' => ?_, hstorage, hid, ?_⟩
              · rintro p ⟨⟩
                exact .loop sender todo
              · simp only [Work.step, inProcess, List.map_cons, List.cons_append,
                  List.count_cons, List.count_nil]
                omega
              · exact congrArg ZeroCopyProcessor.batchSize hproc

end Work

/-! ### The logs -/

namespace PublishState

/-- The logs hold what was recovered and the requests in order. -/
def Logged (storage : LogStore) (partition : Int32) (topics : Finset String)
    (recovered : String → Log) (requests : List Tagged) : Prop :=
  ∀ topic ∈ topics, storage.log? topic partition =
    some (recovered topic ++ payloadsTo topic requests)

theorem payloadsTo_append (topic : String) (ts ts' : List Tagged) :
    payloadsTo topic (ts ++ ts') = payloadsTo topic ts ++ payloadsTo topic ts' := by
  simp only [payloadsTo, List.filter_append, List.map_append]

theorem payloadsTo_eq_nil {topic : String} {ts : List Tagged}
    (h : ∀ t ∈ ts, t.req.topic ≠ topic) : payloadsTo topic ts = [] := by
  have hfilter : ts.filter (fun t => t.req.topic = topic) = [] := by
    simpa [List.filter_eq_nil_iff] using h
  rw [payloadsTo, hfilter, List.map_nil]

variable {storage : LogStore} {partition : Int32} {topics : Finset String}
variable {recovered : String → Log} {ts : List Tagged}

/-- Requests handed to the storage end up in the logs. -/
theorem Logged.storeAll (h : Logged storage partition topics recovered ts)
    (stored : List Tagged) :
    Logged (Work.storeAll partition storage stored) partition topics recovered
      (ts ++ stored) := by
  -- one append after the other, each keeping the logs
  induction stored generalizing storage ts with
  | nil => simpa [Work.storeAll] using h
  | cons t stored ih =>
      have hone : Logged (storage.append t.req.topic partition (utf8 t.req.payload)).2
          partition topics recovered (ts ++ [t]) := by
        intro topic htopic
        rw [LogStore.log?_append, payloadsTo_append]
        by_cases heq : topic = t.req.topic
        · subst heq
          rw [if_pos ⟨rfl, rfl⟩, h _ htopic]
          simp [payloadsTo]
        · have hnil : payloadsTo topic [t] = [] :=
            payloadsTo_eq_nil (by simpa using Ne.symm heq)
          rw [if_neg fun hand => heq hand.1, h _ htopic, hnil, List.append_nil]
      rw [← List.singleton_append, ← List.append_assoc]
      exact ih hone

/-- A new topic starts from its file. -/
theorem Logged.insert (h : Logged storage partition topics recovered ts)
    (hts : ∀ t ∈ ts, t.req.topic ∈ topics) {topic : String} (hnew : topic ∉ topics) :
    Logged ((storage.createTopic topic).createPartition topic partition (recovered topic))
      partition (insert topic topics) recovered ts := by
  have hexists : ((storage.createTopic topic).topics.lookup topic).isSome = true := by
    simp [LogStore.createTopic]
  intro topic' htopic'
  rw [LogStore.createPartition, LogStore.log?_setLog, hexists, LogStore.log?_createTopic]
  by_cases heq : topic' = topic
  · -- nothing has been handed to a topic that did not exist
    subst heq
    have hnil : payloadsTo topic' ts = [] :=
      payloadsTo_eq_nil fun t ht heq => hnew (heq ▸ hts t ht)
    rw [if_pos ⟨rfl, rfl, rfl⟩, hnil, List.append_nil]
  · rw [if_neg fun hand => heq hand.1, if_neg heq]
    exact h topic' (Finset.mem_of_mem_insert_of_ne htopic' heq)

/-! ### The handlers -/

/-- The handler has handed its request on. -/
def hasAdded : HandlerPhase → Bool
  | .forwarded | .ensureTopic | .addMessage | .failed => false
  | .getReadyBatches | .processing _ | .respond | .acknowledged => true

/-- Every handler hands its request on once, when its topic exists, and has
popped batches of one message only. -/
structure HandlersOk (topics : Finset String) (added : List Tagged) (handlers : List Handler) :
    Prop where
  once : ∀ (i : Nat) (h : Handler), handlers[i]? = some h →
    added.count ⟨i, h.req⟩ = if hasAdded h.phase then 1 else 0
  tags : ∀ t ∈ added, t.tag < handlers.length
  ensured : ∀ (i : Nat) (h : Handler), handlers[i]? = some h → h.phase = .addMessage →
    h.req.topic ∈ topics
  single : ∀ (i : Nat) (h : Handler), handlers[i]? = some h → ∀ w, h.phase = .processing w →
    w.Single

variable {added : List Tagged} {handlers : List Handler} {i : Nat} {h : Handler}
variable {phase : HandlerPhase}

/-- A handler moves to another phase. -/
theorem HandlersOk.set (hok : HandlersOk topics added handlers) (hi : handlers[i]? = some h)
    (hadded : hasAdded phase = hasAdded h.phase)
    (hensured : phase = .addMessage → h.req.topic ∈ topics)
    (hsingle : ∀ w, phase = .processing w → w.Single) :
    HandlersOk topics added (handlers.set i { h with phase := phase }) := by
  constructor
  · intro j h' hj
    rcases getElem?_set_cases hj with ⟨rfl, rfl⟩ | ⟨-, hold⟩
    · rw [hok.once j h hi, hadded]
    · exact hok.once j h' hold
  · intro t ht
    rw [List.length_set]
    exact hok.tags t ht
  · intro j h' hj hphase
    rcases getElem?_set_cases hj with ⟨-, rfl⟩ | ⟨-, hold⟩
    · exact hensured hphase
    · exact hok.ensured j h' hold hphase
  · intro j h' hj w hphase
    rcases getElem?_set_cases hj with ⟨-, rfl⟩ | ⟨-, hold⟩
    · exact hsingle w hphase
    · exact hok.single j h' hold w hphase

/-- A handler puts its request into the batcher. -/
theorem HandlersOk.add (hok : HandlersOk topics added handlers) (hi : handlers[i]? = some h)
    (hphase : h.phase = .addMessage) :
    HandlersOk topics (added ++ [⟨i, h.req⟩])
      (handlers.set i { h with phase := .getReadyBatches }) := by
  have hnone : added.count ⟨i, h.req⟩ = 0 := by
    rw [hok.once i h hi, hphase]
    rfl
  constructor
  · intro j h' hj
    rcases getElem?_set_cases hj with ⟨rfl, rfl⟩ | ⟨hne, hold⟩
    · rw [List.count_append, hnone, List.count_singleton_self]
      rfl
    · -- requests of different handlers differ in their tags
      have hother : ([⟨i, h.req⟩] : List Tagged).count ⟨j, h'.req⟩ = 0 := by
        rw [List.count_eq_zero, List.mem_singleton]
        exact fun heq => hne (congrArg Tagged.tag heq)
      rw [List.count_append, hother, Nat.add_zero]
      exact hok.once j h' hold
  · intro t ht
    rw [List.length_set]
    rcases List.mem_append.mp ht with hold | hnew
    · exact hok.tags t hold
    · rw [List.mem_singleton.mp hnew]
      exact (List.getElem?_eq_some_iff.mp hi).1
  · intro j h' hj hphase'
    rcases getElem?_set_cases hj with ⟨-, rfl⟩ | ⟨-, hold⟩
    · cases hphase'
    · exact hok.ensured j h' hold hphase'
  · intro j h' hj w hphase'
    rcases getElem?_set_cases hj with ⟨-, rfl⟩ | ⟨-, hold⟩
    · cases hphase'
    · exact hok.single j h' hold w hphase'

/-- A new handler has not handed anything on. -/
theorem HandlersOk.push (hok : HandlersOk topics added handlers) (req : PublishRequest)
    (hphase : phase = .ensureTopic ∨ phase = .forwarded) :
    HandlersOk topics added (handlers ++ [⟨req, phase⟩]) := by
  constructor
  · intro j h' hj
    rcases getElem?_concat_cases hj with hold | ⟨rfl, rfl⟩
    · exact hok.once j h' hold
    · -- the new number is not in use yet
      have hnone : added.count ⟨handlers.length, req⟩ = 0 := by
        rw [List.count_eq_zero]
        exact fun hmem => Nat.lt_irrefl _ (hok.tags _ hmem)
      rcases hphase with rfl | rfl <;> exact hnone
  · intro t ht
    have := hok.tags t ht
    rw [List.length_append]
    omega
  · intro j h' hj hphase'
    rcases getElem?_concat_cases hj with hold | ⟨-, rfl⟩
    · exact hok.ensured j h' hold hphase'
    · rcases hphase with rfl | rfl <;> cases hphase'
  · intro j h' hj w hphase'
    rcases getElem?_concat_cases hj with hold | ⟨-, rfl⟩
    · exact hok.single j h' hold w hphase'
    · rcases hphase with rfl | rfl <;> cases hphase'

theorem HandlersOk.mono (hok : HandlersOk topics added handlers) {topics' : Finset String}
    (hsub : topics ⊆ topics') : HandlersOk topics' added handlers where
  once := hok.once
  tags := hok.tags
  ensured i h hi hphase := hsub (hok.ensured i h hi hphase)
  single := hok.single

/-! ### The invariant -/

/-- Every request put into the batcher is in one place, and the logs hold
those that were handed to the storage. -/
structure Inv (s : PublishState) : Prop where
  handlers : HandlersOk s.topics s.added s.handlers
  flusher : s.flusher.Single
  count : ∀ t, s.batcher.pending.count t + s.inProcess.count t + s.persisted.count t =
    s.added.count t
  topics : ∀ t ∈ s.added, t.req.topic ∈ s.topics
  logged : Logged s.broker.storage s.broker.partition s.topics s.recovered s.persisted
  room : 0 < s.batcher.batchSize
  frames : 1 ≤ s.broker.zeroCopyProcessor.batchSize

variable {s : PublishState}

theorem Inv.mem_added (hinv : s.Inv) {t : Tagged} (ht : t ∈ s.persisted) : t ∈ s.added := by
  have hpos := List.count_pos_iff.mpr ht
  have hcount := hinv.count t
  exact List.count_pos_iff.mp (by omega)

/-- The invariant gives what is to hold. -/
theorem Inv.conserved (hinv : s.Inv) : s.Conserved := by
  have honce : ∀ i h, s.handlers[i]? = some h → h.phase = .acknowledged →
      s.batcher.pending.count ⟨i, h.req⟩ + s.inProcess.count ⟨i, h.req⟩ +
        s.persisted.count ⟨i, h.req⟩ = 1 := by
    intro i h hi hphase
    rw [hinv.count, hinv.handlers.once i h hi, hphase]
    rfl
  refine ⟨honce, hinv.logged, fun t ht => hinv.topics t (hinv.mem_added ht), ?_⟩
  intro hpending hprocess i h hi hphase
  have hcount := honce i h hi hphase
  rw [hpending, hprocess, List.count_nil] at hcount
  exact List.count_pos_iff.mp (by omega)

/-- What is in processing when a handler has moved. -/
theorem count_inProcess_setPhase (hi : s.handlers[i]? = some h) (phase : HandlerPhase)
    (t : Tagged) :
    (s.setPhase i h phase).inProcess.count t + h.inProcess.count t =
      s.inProcess.count t + (Handler.inProcess ⟨h.req, phase⟩).count t := by
  have hset := count_flatMap_set Handler.inProcess t hi (y := ⟨h.req, phase⟩)
  simp only [inProcess, setPhase, List.count_append]
  omega

/-- A handler moves without moving requests. -/
theorem Inv.setPhase (hinv : s.Inv) (hi : s.handlers[i]? = some h)
    (hadded : hasAdded phase = hasAdded h.phase)
    (hensured : phase = .addMessage → h.req.topic ∈ s.topics)
    (hsame : Handler.inProcess ⟨h.req, phase⟩ = h.inProcess)
    (hsingle : ∀ w, phase ≠ .processing w) : (s.setPhase i h phase).Inv where
  handlers := hinv.handlers.set hi hadded hensured fun w hw => absurd hw (hsingle w)
  flusher := hinv.flusher
  count t := by
    have hmove := count_inProcess_setPhase hi phase t
    rw [hsame] at hmove
    have hcount := hinv.count t
    show s.batcher.pending.count t + _ + s.persisted.count t = s.added.count t
    omega
  topics := hinv.topics
  logged := hinv.logged
  room := hinv.room
  frames := hinv.frames

theorem Inv.ensureTopic (hinv : s.Inv) (topic : String) :
    (s.ensureTopic topic).Inv ∧ (s.ensureTopic topic).handlers = s.handlers ∧
      topic ∈ (s.ensureTopic topic).topics := by
  unfold PublishState.ensureTopic
  split_ifs with hmem
  · exact ⟨hinv, rfl, hmem⟩
  · have hsub : s.topics ⊆ insert topic s.topics := Finset.subset_insert topic s.topics
    have hstored : ∀ t ∈ s.persisted, t.req.topic ∈ s.topics :=
      fun t ht => hinv.topics t (hinv.mem_added ht)
    refine ⟨?_, rfl, Finset.mem_insert_self topic s.topics⟩
    exact {
      handlers := hinv.handlers.mono hsub
      flusher := hinv.flusher
      count := hinv.count
      topics := fun t ht => hsub (hinv.topics t ht)
      logged := hinv.logged.insert hstored hmem
      room := hinv.room
      frames := hinv.frames }

/-- The batches popped from the batcher. -/
theorem popped_spec {p : BatchedProcessor Tagged} {now : Nat → Instant}
    (hpops : popsSingles p now = true) :
    Work.Single ⟨none, (p.getReadyBatches now).1.map MessageBatch.messages⟩ ∧
      ∀ t, (Work.inProcess ⟨none, (p.getReadyBatches now).1.map MessageBatch.messages⟩).count t +
        (p.getReadyBatches now).2.pending.count t = p.pending.count t := by
  refine ⟨⟨by rintro p ⟨⟩, ?_⟩, fun t => ?_⟩
  · intro messages hmessages
    obtain ⟨batch, hbatch, rfl⟩ := List.mem_map.mp hmessages
    have hall := List.all_eq_true.mp hpops batch hbatch
    simpa using hall
  · have hsplit := BatchedProcessor.flatMap_getReadyBatches p now
    rw [← hsplit, List.count_append, List.flatMap_def]
    rfl

/-- What an operation on popped batches hands to the storage is in the logs. -/
theorem Inv.logged_of_moves (hinv : s.Inv) {w : Work} {r : Work × Broker × List Tagged}
    (hmoves : Work.Moves s.broker w r) :
    Logged r.2.1.storage r.2.1.partition s.topics s.recovered (s.persisted ++ r.2.2) := by
  have hpartition : r.2.1.partition = s.broker.partition := by
    rw [Broker.partition, Broker.partition, hmoves.partitionId]
  rw [hpartition, hmoves.storage]
  exact hinv.logged.storeAll r.2.2

/-- A handler puts its request into the batcher. -/
theorem Inv.addMessage (hinv : s.Inv) {req : PublishRequest}
    (hi : s.handlers[i]? = some ⟨req, .addMessage⟩) (env : StepEnv) :
    (s.stepHandler i ⟨req, .addMessage⟩ env).Inv := by
  -- the batcher takes every message, so the fallback is never taken
  obtain ⟨batcher, hadd⟩ := s.batcher.addMessage_isOk ⟨i, req⟩ (env.now 0)
  have hpending := BatchedProcessor.pending_addMessage hinv.room hadd
  simp only [PublishState.stepHandler, hadd]
  refine ⟨hinv.handlers.add hi rfl, hinv.flusher, fun t => ?_, ?_, hinv.logged, ?_,
    hinv.frames⟩
  · have hcount := hinv.count t
    have hmove := count_inProcess_setPhase hi .getReadyBatches t
    simp only [Handler.inProcess, List.count_nil, Nat.add_zero] at hmove
    show batcher.pending.count t + (s.setPhase i _ _).inProcess.count t +
      s.persisted.count t = (s.added ++ [(⟨i, req⟩ : Tagged)]).count t
    rw [hpending, hmove, List.count_append, List.count_append]
    omega
  · intro t ht
    rcases List.mem_append.mp ht with hold | hnew
    · exact hinv.topics t hold
    · rw [List.mem_singleton.mp hnew]
      exact hinv.handlers.ensured i _ hi rfl
  · exact (BatchedProcessor.batchSize_addMessage hadd).symm ▸ hinv.room

/-- A handler pops the ready batches. -/
theorem Inv.getReadyBatches (hinv : s.Inv) {req : PublishRequest}
    (hi : s.handlers[i]? = some ⟨req, .getReadyBatches⟩) {env : StepEnv}
    (hpops : popsSingles s.batcher env.now = true) :
    (s.stepHandler i ⟨req, .getReadyBatches⟩ env).Inv := by
  obtain ⟨hsingle, hpopped⟩ := popped_spec hpops
  refine ⟨hinv.handlers.set hi rfl (by rintro ⟨⟩) ?_, hinv.flusher, fun t => ?_,
    hinv.topics, hinv.logged, hinv.room, hinv.frames⟩
  · rintro w ⟨⟩
    exact hsingle
  · -- what leaves the batcher is in the handler's batches now
    have hcount := hinv.count t
    have hpop := hpopped t
    have hmove := count_inProcess_setPhase hi (.processing
      ⟨none, (s.batcher.getReadyBatches env.now).1.map MessageBatch.messages⟩) t
    simp only [Handler.inProcess, List.count_nil, Nat.add_zero] at hmove
    show (s.batcher.getReadyBatches env.now).2.pending.count t +
      (s.setPhase i _ (.processing ⟨none, (s.batcher.getReadyBatches env.now).1.map
        MessageBatch.messages⟩)).inProcess.count t +
      s.persisted.count t = s.added.count t
    omega

/-- A handler works on its batches. -/
theorem Inv.processing (hinv : s.Inv) {req : PublishRequest} {work : Work}
    (hi : s.handlers[i]? = some ⟨req, .processing work⟩) {env : StepEnv}
    (hfits : work.fits s.broker.zeroCopyProcessor = true) :
    (s.stepHandler i ⟨req, .processing work⟩ env).Inv := by
  by_cases hdone : work.isDone = true
  · simp only [PublishState.stepHandler, if_pos hdone]
    exact hinv.setPhase hi rfl (by rintro ⟨⟩) (Work.inProcess_of_isDone hdone).symm
      (by rintro w ⟨⟩)
  · have hmoves := (hinv.handlers.single i _ hi work rfl).step
      Broker.ensureChannel_frame env.fresh hinv.frames hfits
    simp only [PublishState.stepHandler, if_neg hdone]
    generalize work.step Broker.ensureChannel env.fresh s.broker = r at hmoves
    refine ⟨hinv.handlers.set hi rfl (by rintro ⟨⟩) ?_, hinv.flusher, fun t => ?_,
      hinv.topics, hinv.logged_of_moves hmoves, hinv.room, ?_⟩
    · rintro w ⟨⟩
      exact hmoves.single
    · -- what leaves the batches is in the logs now
      have hcount := hinv.count t
      have hmove := count_inProcess_setPhase hi (.processing r.1) t
      have hstep := hmoves.count t
      simp only [Handler.inProcess] at hmove
      show s.batcher.pending.count t + (s.setPhase i _ (.processing r.1)).inProcess.count t +
        (s.persisted ++ r.2.2).count t = s.added.count t
      rw [List.count_append]
      omega
    · exact hmoves.batchSize.symm ▸ hinv.frames

/-- **Step lemma for the handlers.** -/
theorem Inv.stepHandler (hinv : s.Inv) (hi : s.handlers[i]? = some h) {env : StepEnv}
    (hloss : s.lossless (.handler i env) = true) : (s.stepHandler i h env).Inv := by
  obtain ⟨req, phase⟩ := h
  cases phase with
  | forwarded => exact hinv
  | acknowledged => exact hinv
  | failed => exact hinv
  | ensureTopic =>
      obtain ⟨hinv', hhandlers, hmem⟩ := hinv.ensureTopic req.topic
      rw [← hhandlers] at hi
      exact hinv'.setPhase hi rfl (fun _ => hmem) rfl (by rintro w ⟨⟩)
  | addMessage => exact hinv.addMessage hi env
  | getReadyBatches =>
      apply hinv.getReadyBatches hi
      simpa [lossless, hi] using hloss
  | processing work =>
      apply hinv.processing hi
      simpa [lossless, hi] using hloss
  | respond =>
      -- the response only takes a number from the message counter
      have hinv' : Inv { s with
          broker := { s.broker with messageCounter := s.broker.messageCounter + 1 } } :=
        ⟨hinv.handlers, hinv.flusher, hinv.count, hinv.topics, hinv.logged, hinv.room,
          hinv.frames⟩
      exact hinv'.setPhase hi rfl (by rintro ⟨⟩) rfl (by rintro w ⟨⟩)

/-- **Step lemma for the flusher.** -/
theorem Inv.stepFlusher (hinv : s.Inv) {env : StepEnv}
    (hloss : s.lossless (.flusher env) = true) : (s.stepFlusher env).Inv := by
  by_cases hdone : s.flusher.isDone = true
  · have hpops : popsSingles s.batcher env.now = true := by
      simpa only [lossless, if_pos hdone] using hloss
    obtain ⟨hsingle, hpopped⟩ := popped_spec hpops
    simp only [PublishState.stepFlusher, if_pos hdone]
    refine ⟨hinv.handlers, hsingle, fun t => ?_, hinv.topics, hinv.logged, hinv.room,
      hinv.frames⟩
    have hcount := hinv.count t
    have hpop := hpopped t
    simp only [inProcess, List.count_append, Work.inProcess_of_isDone hdone,
      List.count_nil] at hcount ⊢
    omega
  · have hfits : s.flusher.fits s.broker.zeroCopyProcessor = true := by
      simpa only [lossless, if_neg hdone] using hloss
    have hmoves := hinv.flusher.step Broker.flusherChannel_frame env.fresh hinv.frames hfits
    simp only [PublishState.stepFlusher, if_neg hdone]
    generalize s.flusher.step Broker.flusherChannel env.fresh s.broker = r at hmoves
    refine ⟨hinv.handlers, hmoves.single, fun t => ?_, hinv.topics,
      hinv.logged_of_moves hmoves, hinv.room, ?_⟩
    · have hcount := hinv.count t
      have hstep := hmoves.count t
      show s.batcher.pending.count t +
        (s.handlers.flatMap Handler.inProcess ++ r.1.inProcess).count t +
        (s.persisted ++ r.2.2).count t = s.added.count t
      simp only [inProcess, List.count_append] at hcount ⊢
      omega
    · exact hmoves.batchSize.symm ▸ hinv.frames

/-- **Step lemma.**  A step that loses nothing keeps the invariant. -/
theorem Inv.step (hinv : s.Inv) (label : PublishLabel) (hloss : s.lossless label = true) :
    (s.step label).Inv := by
  cases label with
  | publish req =>
      refine ⟨hinv.handlers.push req ?_, hinv.flusher, fun t => ?_, hinv.topics, hinv.logged,
        hinv.room, hinv.frames⟩
      · split_ifs
        · exact .inl rfl
        · exact .inr rfl
      · have hnone : Handler.inProcess
            ⟨req, if s.ownsPartition req.key then .ensureTopic else .forwarded⟩ = [] := by
          split_ifs <;> rfl
        have hcount := hinv.count t
        simp only [PublishState.step, inProcess, List.flatMap_append, List.flatMap_singleton,
          hnone, List.append_nil] at hcount ⊢
        exact hcount
  | handler i env =>
      cases hi : s.handlers[i]? with
      | none =>
          simp only [PublishState.step, hi]
          exact hinv
      | some h =>
          simp only [PublishState.step, hi]
          exact hinv.stepHandler hi hloss
  | flusher env => exact hinv.stepFlusher hloss

theorem inv_start (partitionId totalPartitions : UInt32) (recovered : String → Log) :
    (start partitionId totalPartitions recovered).Inv where
  handlers := ⟨by simp [start], by simp [start], by simp [start], by simp [start]⟩
  flusher := ⟨by rintro p ⟨⟩, by simp [start]⟩
  count t := rfl
  topics := by simp [start]
  logged := by simp [start, Logged]
  room := Nat.zero_lt_succ 99
  frames := Nat.succ_le_succ (Nat.zero_le 999)

/-- **No acknowledged request is lost or duplicated** in a run in which every
popped batch holds one message and every append to the framing buffers finds
room. -/
theorem conserved_of_lossless (partitionId totalPartitions : UInt32)
    (recovered : String → Log) (labels : List PublishLabel)
    (hloss : Along step (fun s label => s.lossless label = true)
      (start partitionId totalPartitions recovered) labels) :
    Always step Conserved (start partitionId totalPartitions recovered) labels :=
  (Always.of_along (inv_start partitionId totalPartitions recovered) hloss
    fun _ label hinv hlabel => hinv.step label hlabel).mono fun _ hinv => hinv.conserved

/-- A step at a given time, in nanoseconds. -/
def stepAt (now : Instant) : StepEnv := ⟨fun _ => now, ⟨"id", .unixEpoch⟩⟩

/-- A request is published and acknowledged; ten milliseconds later the flusher
pops it and processes it. -/
def publishOne : List PublishLabel :=
  .publish Broker.hiRequest :: List.replicate 5 (.handler 0 (stepAt 0)) ++
    List.replicate 11 (.flusher (stepAt (10 * 10 ^ 6)))

/-- It is not lost, and ends up in the log. -/
theorem publishOne_conserved :
    Along step (fun s label => s.lossless label = true) (start 0 1 fun _ => []) publishOne ∧
      Always step Conserved (start 0 1 fun _ => []) publishOne ∧
      (publishOne.foldl step (start 0 1 fun _ => [])).broker.storage.log? "t" 0 =
        some [utf8 "hi"] :=
  ⟨by decide, conserved_of_lossless 0 1 (fun _ => []) publishOne (by decide), by decide⟩

/-- Two requests are published and acknowledged; the flusher pops them in one
batch. -/
def publishTwo : List PublishLabel :=
  [.publish Broker.hiRequest, .publish Broker.hiRequest] ++
    List.replicate 5 (.handler 0 (stepAt 0)) ++ List.replicate 5 (.handler 1 (stepAt 0)) ++
    List.replicate 14 (.flusher (stepAt (10 * 10 ^ 6)))

/-- The second one is lost. -/
theorem publishTwo_loses : ¬ Always step Conserved (start 0 1 fun _ => []) publishTwo := by
  intro h
  have hcount := h.last.once 1 ⟨Broker.hiRequest, .acknowledged⟩ rfl rfl
  exact absurd hcount (by decide)

end PublishState

end Rafka
