/-
Rafka/Broker.lean

How a broker processes published messages (`crates/broker/src/broker.rs`).

There are three copies of this: `process_single_message` (the fallback),
`process_batch` (called by the publish handlers) and the body of the
background flusher in `serve`.  The last two send the payloads of a batch
through the framing of `Rafka.ZeroCopy` and then walk the requests and the
framing result side by side.  The framing result is one `Result<Bytes, _>`
for the whole batch; iterating over it yields one item if it is `Ok` and none
otherwise, so the walk covers at most one request, and what it broadcasts is
the framing of the whole batch.

The storage is taken as a `LogStore`, and its `append` as one step that returns
(`Rafka.Storage` shows that it waits for itself; where the topic or the
partition does not exist it does return).  Main result (`batch_agrees_iff`): the
batch paths agree with the fallback exactly on the empty batch and on a batch
that does not fit the framing while none of its topics exists.
-/
import Rafka.Log
import Rafka.Utf8
import Rafka.ZeroCopy

namespace Rafka

/-! ### Messages -/

/-- `PublishRequest`. -/
structure PublishRequest where
  producerId : String
  topic : String
  key : String
  payload : String
deriving DecidableEq

/-- `PublishResponse`. -/
structure PublishResponse where
  messageId : String
  success : Bool
  message : String
  partition : Int32
  offset : Int64
deriving DecidableEq

/-- `ConsumeResponse`. -/
structure ConsumeResponse where
  messageId : String
  topic : String
  payload : String
  sentAt : Int64
  offset : Int64
  partition : Int32
deriving DecidableEq

/-- What a processed message takes from the environment: a fresh id and a
clock reading. -/
structure Fresh where
  messageId : String
  now : EpochTime
deriving DecidableEq

/-- A broadcast channel: its identity and how many receivers it has. -/
structure Channel where
  id : Nat
  receiverCount : Nat
deriving DecidableEq

/-- What of a `Broker` the processing of messages touches.  `sent` records
every call of `Sender::send`, with the channel it was made on. -/
structure Broker where
  partitionId : UInt32
  storage : LogStore
  zeroCopyProcessor : ZeroCopyProcessor
  messageCounter : Nat
  channels : HashMap UInt32 Channel
  nextChannel : Nat
  sent : List (Channel × ConsumeResponse)
deriving DecidableEq

namespace Broker

/-- `self.partition_id as i32`. -/
def partition (b : Broker) : Int32 := b.partitionId.toInt32

/-- `broadcast::channel`, registered for the partition. -/
def newChannel (b : Broker) : Channel × Broker :=
  let tx : Channel := ⟨b.nextChannel, 0⟩
  (tx, { b with
    channels := b.channels.insert b.partitionId tx
    nextChannel := b.nextChannel + 1 })

/-- `Broker::ensure_channel` for the broker's own partition: a channel
without receivers is replaced. -/
def ensureChannel (b : Broker) : Channel × Broker :=
  match b.channels.lookup b.partitionId with
  | some sender => if sender.receiverCount > 0 then (sender, b) else b.newChannel
  | none => b.newChannel

/-- The channel logic of the flusher: a registered channel is kept. -/
def flusherChannel (b : Broker) : Channel × Broker :=
  match b.channels.lookup b.partitionId with
  | some sender => (sender, b)
  | none => b.newChannel

/-- `sender.send`. -/
def send (b : Broker) (sender : Channel) (response : ConsumeResponse) : Broker :=
  { b with sent := b.sent ++ [(sender, response)] }

/-- `self.storage.append` on the broker's own partition. -/
def store (b : Broker) (req : PublishRequest) : Option Int64 × Broker :=
  let (offset, storage) := b.storage.append req.topic b.partition (utf8 req.payload)
  (offset, { b with storage := storage })

/-- `Broker::process_single_message`. -/
def processSingleMessage (b : Broker) (fresh : Fresh) (req : PublishRequest) :
    Except String PublishResponse × Broker :=
  match b.store req with
  | (none, b) => (.error "Failed to append to storage", b)
  | (some offset, b) =>
      let response : ConsumeResponse :=
        { messageId := fresh.messageId
          topic := req.topic
          payload := req.payload
          sentAt := Int64.ofNat fresh.now.secs
          offset := offset
          partition := b.partition }
      let (sender, b) := b.ensureChannel
      (.ok
        { messageId := fresh.messageId
          success := true
          message := "Published successfully to partition " ++ toString b.partitionId ++
            " with offset " ++ toString offset
          partition := b.partition
          offset := offset },
        b.send sender response)

/-- `Result::iter`: the value, if there is one. -/
def resultIter {ε α : Type} : Except ε α → List α
  | .ok a => [a]
  | .error _ => []

/-- One turn of the loop over a batch: the message is stored, or takes its
offset from the message counter, and the processed payload is broadcast. -/
def processNext (sender : Channel) (b : Broker) (fresh : Fresh) (req : PublishRequest)
    (processedPayload : List UInt8) : Broker :=
  let (offset, b) :=
    match b.store req with
    | (some offset, b) => (offset, b)
    | (none, b) =>
        (Int64.ofNat b.messageCounter, { b with messageCounter := b.messageCounter + 1 })
  b.send sender
    { messageId := fresh.messageId
      topic := req.topic
      payload := fromUtf8Lossy processedPayload
      sentAt := Int64.ofNat fresh.now.secs
      offset := offset
      partition := b.partition }

/-- The loop over the requests and the framing result; the `k`-th turn draws
`fresh k`. -/
def processLoop (sender : Channel) (fresh : Nat → Fresh) :
    Nat → Broker → List (PublishRequest × List UInt8) → Broker
  | _, b, [] => b
  | k, b, (req, processedPayload) :: rest =>
      processLoop sender fresh (k + 1) (processNext sender b (fresh k) req processedPayload) rest

/-- The payloads of a batch, as they go into the framing. -/
def payloads (messages : List PublishRequest) : List (List UInt8) :=
  messages.map fun req => utf8 req.payload

/-- The part that `process_batch` and the flusher share: only the way to the
channel differs. -/
def processWith (channel : Broker → Channel × Broker) (b : Broker) (fresh : Nat → Fresh)
    (messages : List PublishRequest) : Broker :=
  if messages.isEmpty then b
  else
    let (processedMessages, processor) := b.zeroCopyProcessor.processBatch (payloads messages)
    let (sender, b) := channel { b with zeroCopyProcessor := processor }
    processLoop sender fresh 0 b (messages.zip (resultIter processedMessages))

/-- `Broker::process_batch`. -/
def processBatch (b : Broker) (fresh : Nat → Fresh) (messages : List PublishRequest) :
    Broker :=
  processWith ensureChannel b fresh messages

/-- The flusher's handling of one batch. -/
def flushBatch (b : Broker) (fresh : Nat → Fresh) (messages : List PublishRequest) : Broker :=
  processWith flusherChannel b fresh messages

/-- `process_single_message` on each request in order. -/
def processSingly (fresh : Nat → Fresh) : Nat → Broker → List PublishRequest → Broker
  | _, b, [] => b
  | k, b, req :: rest => processSingly fresh (k + 1) (b.processSingleMessage (fresh k) req).2 rest

/-! ### What the three paths leave behind -/

/-- What a response tells a consumer, apart from its id and time. -/
def wire (r : ConsumeResponse) : String × String × Int64 × Int32 :=
  (r.topic, r.payload, r.offset, r.partition)

/-- The same logs and the same sequence of responses. -/
def Agrees (b b' : Broker) : Prop :=
  b.storage = b'.storage ∧
    b.sent.map (fun r => wire r.2) = b'.sent.map (fun r => wire r.2)

/-- The topic of the request, or its partition, does not exist in the storage. -/
def Missing (b : Broker) (req : PublishRequest) : Prop :=
  b.storage.log? req.topic b.partition = none

variable {b : Broker} {messages : List PublishRequest} (fresh : Nat → Fresh)

theorem store_of_missing {req : PublishRequest} (h : b.Missing req) :
    b.store req = (none, b) := by
  simp only [store, LogStore.append_of_none h]

theorem processSingleMessage_of_missing {req : PublishRequest} (h : b.Missing req)
    (f : Fresh) : (b.processSingleMessage f req).2 = b := by
  simp only [processSingleMessage, store_of_missing h]

/-- Getting a channel changes nothing but the channels. -/
structure ChannelFrame (channel : Broker → Channel × Broker) : Prop where
  storage : ∀ b, (channel b).2.storage = b.storage
  sent : ∀ b, (channel b).2.sent = b.sent
  partitionId : ∀ b, (channel b).2.partitionId = b.partitionId
  processor : ∀ b, (channel b).2.zeroCopyProcessor = b.zeroCopyProcessor

theorem ensureChannel_frame : ChannelFrame ensureChannel := by
  constructor <;> intro b <;> unfold ensureChannel <;> split <;> (try split) <;> rfl

theorem flusherChannel_frame : ChannelFrame flusherChannel := by
  constructor <;> intro b <;> unfold flusherChannel <;> split <;> rfl

/-- A message that is stored is also sent, with its own payload. -/
theorem sent_processSingleMessage {req : PublishRequest} (h : ¬ b.Missing req) (f : Fresh) :
    ∃ r, (b.processSingleMessage f req).2.sent = b.sent ++ [r] ∧
      r.2.payload = req.payload := by
  obtain ⟨log, hlog⟩ := Option.ne_none_iff_exists'.mp h
  simp only [processSingleMessage, store, LogStore.append, hlog, send,
    ensureChannel_frame.sent]
  exact ⟨_, rfl, rfl⟩

/-- The fallback sends responses with the payloads of the requests. -/
theorem sent_processSingly (fresh : Nat → Fresh) (k : Nat) (b : Broker)
    (messages : List PublishRequest) :
    ∃ rs, (processSingly fresh k b messages).sent = b.sent ++ rs ∧
      ∀ r ∈ rs, ∃ req ∈ messages, r.2.payload = req.payload := by
  induction messages generalizing k b with
  | nil => exact ⟨[], (List.append_nil _).symm, by simp⟩
  | cons req rest ih =>
      obtain ⟨rs, hrs, hpayload⟩ := ih (k + 1) (b.processSingleMessage (fresh k) req).2
      have hrest : ∀ r ∈ rs, ∃ req' ∈ req :: rest, r.2.payload = req'.payload := by
        intro r hr
        obtain ⟨req', hreq', hp⟩ := hpayload r hr
        exact ⟨req', List.mem_cons_of_mem req hreq', hp⟩
      -- a request that cannot be stored is not sent either
      by_cases hmiss : b.Missing req
      · refine ⟨rs, ?_, hrest⟩
        rw [processSingly, hrs, processSingleMessage_of_missing hmiss]
      · obtain ⟨r, hr, hp⟩ := sent_processSingleMessage hmiss (fresh k)
        refine ⟨r :: rs, ?_, ?_⟩
        · rw [processSingly, hrs, hr, List.append_assoc, List.singleton_append]
        · rintro r' (- | ⟨-, hr'⟩)
          · exact ⟨req, List.mem_cons_self, hp⟩
          · exact hrest r' hr'

/-- The fallback on requests that cannot be stored does nothing. -/
theorem processSingly_of_missing (k : Nat) (h : ∀ req ∈ messages, b.Missing req) :
    processSingly fresh k b messages = b := by
  induction messages generalizing k with
  | nil => rfl
  | cons req rest ih =>
      rw [processSingly, processSingleMessage_of_missing (h req List.mem_cons_self)]
      exact ih (k + 1) fun req' hreq' => h req' (List.mem_cons_of_mem req hreq')

/-- The fallback sends nothing only if no request can be stored. -/
theorem missing_of_sent_eq (k : Nat)
    (h : (processSingly fresh k b messages).sent.length = b.sent.length) :
    ∀ req ∈ messages, b.Missing req := by
  induction messages generalizing k with
  | nil => simp
  | cons req rest ih =>
      rw [processSingly] at h
      by_cases hmiss : b.Missing req
      · rw [processSingleMessage_of_missing hmiss] at h
        rintro req' (- | ⟨-, hreq'⟩)
        · exact hmiss
        · exact ih (k + 1) h req' hreq'
      · obtain ⟨r, hr, -⟩ := sent_processSingleMessage hmiss (fresh k)
        obtain ⟨rs, hrs, -⟩ := sent_processSingly fresh (k + 1)
          (b.processSingleMessage (fresh k) req).2 rest
        rw [hrs, hr] at h
        simp at h

/-! ### When the batch paths agree with the fallback -/

/-- A batch that does not fit the framing is dropped. -/
theorem processWith_of_tooLarge {channel : Broker → Channel × Broker}
    (hch : ChannelFrame channel)
    (hlarge : b.zeroCopyProcessor.TooLarge (payloads messages)) :
    (processWith channel b fresh messages).storage = b.storage ∧
      (processWith channel b fresh messages).sent = b.sent := by
  obtain ⟨e, he⟩ := (b.zeroCopyProcessor.processBatch_error_iff (payloads messages)).mpr hlarge
  unfold processWith
  split
  · exact ⟨rfl, rfl⟩
  · simp only [he, resultIter, List.zip_nil_right, processLoop]
    exact ⟨hch.storage _, hch.sent _⟩

/-- A turn of the loop sends the processed payload. -/
theorem sent_processNext (sender : Channel) (b : Broker) (f : Fresh) (req : PublishRequest)
    (processedPayload : List UInt8) :
    ∃ r, (processNext sender b f req processedPayload).sent = b.sent ++ [r] ∧
      r.2.payload = fromUtf8Lossy processedPayload := by
  unfold processNext
  cases hlog : b.storage.log? req.topic b.partition with
  | none =>
      simp only [store, LogStore.append, hlog, send]
      exact ⟨_, rfl, rfl⟩
  | some log =>
      simp only [store, LogStore.append, hlog, send]
      exact ⟨_, rfl, rfl⟩

/-- Of a batch that fits, the first request is stored and one response goes
out; its payload is the framing of the whole batch. -/
theorem sent_processWith_of_fits {channel : Broker → Channel × Broker}
    (hch : ChannelFrame channel)
    (hne : messages ≠ [])
    (hfits : ¬ b.zeroCopyProcessor.TooLarge (payloads messages)) :
    ∃ r, (processWith channel b fresh messages).sent = b.sent ++ [r] ∧
      r.2.payload = fromUtf8Lossy (framing (payloads messages)) := by
  obtain ⟨req, rest, rfl⟩ := List.exists_cons_of_ne_nil hne
  have hok : (b.zeroCopyProcessor.processBatch (payloads (req :: rest))).1 =
      .ok (framing (payloads (req :: rest))) := by
    have hbatch : ¬ (payloads (req :: rest)).length > b.zeroCopyProcessor.batchSize :=
      fun h => hfits (.inl h)
    rw [ZeroCopyProcessor.processBatch_fst, if_neg hbatch, if_neg hfits]
  -- the zip with the one result leaves one turn of the loop
  simp only [processWith, List.isEmpty_cons, Bool.false_eq_true, if_false, hok, resultIter,
    List.zip_cons_cons, List.zip_nil_right, processLoop]
  obtain ⟨r, hr, hp⟩ := sent_processNext _ _ (fresh 0) req (framing (payloads (req :: rest)))
  exact ⟨r, hr.trans (by rw [hch.sent]), hp⟩

/-- The framing is longer than any of its messages. -/
theorem length_lt_framing {ms : List (List UInt8)} {m : List UInt8} (h : m ∈ ms) :
    m.length < (framing ms).length := by
  induction ms with
  | nil => cases h
  | cons m' ms ih =>
      have hcons : (framing (m' :: ms)).length = 4 + m'.length + (framing ms).length := by
        simp [framing, pieces, toBE]
        omega
      rcases List.mem_cons.mp h with rfl | hmem
      · omega
      · have := ih hmem
        omega

/-- The framing of a batch is never read as the payload of one of its
messages. -/
theorem fromUtf8Lossy_framing_ne {req : PublishRequest} (h : req ∈ messages) :
    fromUtf8Lossy (framing (payloads messages)) ≠ req.payload := by
  intro heq
  -- decoding does not shorten, and the framing is longer than the payload
  have hle := length_le_fromUtf8Lossy (framing (payloads messages))
  have hlt : (utf8 req.payload).length < (framing (payloads messages)).length :=
    length_lt_framing (List.mem_map_of_mem h)
  rw [heq] at hle
  rw [length_utf8] at hlt
  omega

/-- What `process_batch` and the flusher share, compared with the fallback. -/
theorem processWith_agrees_iff {channel : Broker → Channel × Broker}
    (hch : ChannelFrame channel)
    (b : Broker) (messages : List PublishRequest) (fresh fresh' : Nat → Fresh) :
    Agrees (processWith channel b fresh messages) (processSingly fresh' 0 b messages) ↔
      messages = [] ∨ (b.zeroCopyProcessor.TooLarge (payloads messages) ∧
        ∀ req ∈ messages, b.Missing req) := by
  constructor
  · rintro ⟨-, hsent⟩
    by_cases hne : messages = []
    · exact .inl hne
    · by_cases hlarge : b.zeroCopyProcessor.TooLarge (payloads messages)
      · refine .inr ⟨hlarge, missing_of_sent_eq fresh' 0 ?_⟩
        rw [(processWith_of_tooLarge fresh hch hlarge).2] at hsent
        simpa using (congrArg List.length hsent).symm
      · -- one response with the framing, against responses with own payloads
        obtain ⟨r, hr, hp⟩ := sent_processWith_of_fits fresh hch hne hlarge
        obtain ⟨rs, hrs, hown⟩ := sent_processSingly fresh' 0 b messages
        rw [hr, hrs, List.map_append, List.map_append, List.append_cancel_left_eq] at hsent
        obtain ⟨r', hr', hwire⟩ : ∃ r' ∈ rs, wire r'.2 = wire r.2 := by
          have hmem : wire r.2 ∈ rs.map fun r => wire r.2 := by
            rw [← hsent]
            exact List.mem_cons_self
          exact List.mem_map.mp hmem
        obtain ⟨req, hreq, hpayload⟩ := hown r' hr'
        have hsame : r'.2.payload = r.2.payload := congrArg (fun w => w.2.1) hwire
        rw [hpayload, hp] at hsame
        exact absurd hsame.symm (fromUtf8Lossy_framing_ne hreq)
  · rintro (rfl | ⟨hlarge, hmiss⟩)
    · exact ⟨rfl, rfl⟩
    · obtain ⟨hstorage, hsent⟩ := processWith_of_tooLarge fresh hch hlarge
      rw [Agrees, processSingly_of_missing fresh' 0 hmiss, hstorage, hsent]
      exact ⟨rfl, rfl⟩

/-- **The batch paths agree with the fallback** exactly on the empty batch and
on a batch that does not fit the framing while no request of it can be
stored. -/
theorem batch_agrees_iff (b : Broker) (messages : List PublishRequest)
    (fresh fresh' : Nat → Fresh) :
    (Agrees (b.processBatch fresh messages) (processSingly fresh' 0 b messages) ↔
      messages = [] ∨ (b.zeroCopyProcessor.TooLarge (payloads messages) ∧
        ∀ req ∈ messages, b.Missing req)) ∧
    (Agrees (b.flushBatch fresh messages) (processSingly fresh' 0 b messages) ↔
      messages = [] ∨ (b.zeroCopyProcessor.TooLarge (payloads messages) ∧
        ∀ req ∈ messages, b.Missing req)) :=
  ⟨processWith_agrees_iff ensureChannel_frame b messages fresh fresh',
    processWith_agrees_iff flusherChannel_frame b messages fresh fresh'⟩

/-- A broker of partition 0 without any topic. -/
def bareBroker : Broker where
  partitionId := 0
  storage := ⟨∅⟩
  zeroCopyProcessor := .new 1000
  messageCounter := 0
  channels := ∅
  nextChannel := 0
  sent := []

/-- A broker of partition 0 with the empty topic `t`. -/
def testBroker : Broker :=
  { bareBroker with storage := (LogStore.createTopic ⟨∅⟩ "t").createPartition "t" 0 [] }

/-- One request to that topic. -/
def hiRequest : PublishRequest where
  producerId := "p"
  topic := "t"
  key := "k"
  payload := "hi"

/-- Already a batch of this one request is broadcast differently.  Where the topic is
missing, the batch broadcasts a response with an offset of its own, and the single
message is refused; where it exists, the response carries the length prefix. -/
theorem batch_of_one_disagrees :
    (bareBroker.processBatch (fun _ => ⟨"id", .unixEpoch⟩) [hiRequest]).sent.map
        (fun r => (r.2.topic, r.2.offset)) = [("t", 0)] ∧
      (processSingly (fun _ => ⟨"id", .unixEpoch⟩) 0 bareBroker [hiRequest]).sent = [] ∧
      ¬ Agrees (bareBroker.processBatch (fun _ => ⟨"id", .unixEpoch⟩) [hiRequest])
        (processSingly (fun _ => ⟨"id", .unixEpoch⟩) 0 bareBroker [hiRequest]) ∧
      ¬ Agrees (testBroker.processBatch (fun _ => ⟨"id", .unixEpoch⟩) [hiRequest])
        (processSingly (fun _ => ⟨"id", .unixEpoch⟩) 0 testBroker [hiRequest]) := by
  have hdisagrees (b : Broker)
      (hfits : ¬ b.zeroCopyProcessor.TooLarge (payloads [hiRequest])) :
      ¬ Agrees (b.processBatch (fun _ => ⟨"id", .unixEpoch⟩) [hiRequest])
        (processSingly (fun _ => ⟨"id", .unixEpoch⟩) 0 b [hiRequest]) := by
    rw [processBatch, processWith_agrees_iff ensureChannel_frame]
    rintro (hnil | ⟨hlarge, -⟩)
    · cases hnil
    · exact hfits hlarge
  exact ⟨by decide, by decide, hdisagrees bareBroker (by decide), hdisagrees testBroker (by decide)⟩

end Broker

end Rafka
