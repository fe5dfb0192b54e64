/-
Rafka/Streams.lean

Streams and the channel they are attached to (`Broker::ensure_channel` and
`Broker::consume` in `crates/broker/src/broker.rs`).

`ensure_channel` replaces a channel that has no receivers.  But a task that has
got a sender from it may not have used it yet: `consume` subscribes only after
the lock is released, and whoever processes a batch keeps its sender for the
whole batch.  If the channel is replaced in between, the stream is attached to a
channel nobody sends on, or the response goes to a channel nobody reads.

Main result (`attached_of_keepsSenders`): in a run in which no channel is
replaced while a task has a sender of it in its hands, every open stream is
attached to the channel of the partition, and the responses for all messages
stored since are sent on it.
-/
import Rafka.Serve

namespace Rafka

/-! ### What is to hold -/

namespace Node

/-- The channel that is registered for the partition. -/
def registered (n : Node) : Option Channel := n.broker.channels.lookup n.broker.partitionId

/-- Open streams are attached to the registered channel, and the responses for
messages stored since they were opened were sent on it. -/
structure Attached (n : Node) : Prop where
  attached : ∀ st ∈ n.streams, st.isOpen = true →
    ∃ channel, n.registered = some channel ∧ channel.id = st.channel
  sent : ∀ st ∈ n.streams, st.isOpen = true → ∀ sender delivery k,
    (sender, delivery) ∈ n.deliveries → delivery.append = some k → st.openedAt ≤ k →
    sender.id = st.channel

/-- The senders that tasks have in their hands for a message not stored yet, or for
a subscription. -/
def senders (n : Node) : List Channel :=
  (List.range n.tasks.length).filterMap fun i =>
    n.tasks[i]?.bind fun task => (task.hand i).sender

/-- If the step replaces a channel without receivers, no task has a sender of it
in its hands. -/
def keepsSenders (n : Node) : NodeLabel → Bool
  | .task i _ =>
      match n.tasks[i]?, n.registered with
      | some task, some channel =>
          !(task.ensuresChannel && channel.receiverCount = 0) ||
            n.senders.all fun sender => sender.id ≠ channel.id
      | _, _ => true
  | _ => true

/-! ### The receivers -/

end Node

/-- What of a stream the channels know. -/
structure Receiver where
  isOpen : Bool
  channel : Nat
  openedAt : Nat

/-- The receiver of a stream. -/
def Stream.receiver (st : Stream) : Receiver := ⟨st.isOpen, st.channel, st.openedAt⟩

namespace Node

/-- The receivers of the streams. -/
def receivers (n : Node) : List Receiver := n.streams.map Stream.receiver

/-- The world of the channels: all open receivers are attached to the registered
channel, which counts them, and the responses for messages stored since they
were opened were sent on it. -/
structure World (n : Node) : Prop where
  attached : ∀ r ∈ n.receivers, r.isOpen = true →
    ∃ channel, n.registered = some channel ∧ channel.id = r.channel
  count : ∀ channel, n.registered = some channel →
    channel.receiverCount = n.receivers.countP Receiver.isOpen
  stored : ∀ sender delivery k, (sender, delivery) ∈ n.deliveries →
    delivery.append = some k → k < n.stored.length
  sent : ∀ r ∈ n.receivers, r.isOpen = true → ∀ sender delivery k,
    (sender, delivery) ∈ n.deliveries → delivery.append = some k → r.openedAt ≤ k →
    sender.id = r.channel

/-- What a task has in its hands is for the registered channel. -/
structure HandOk (n : Node) (h : Hand) : Prop where
  sender : ∀ sender, h.sender = some sender →
    ∃ channel, n.registered = some channel ∧ channel.id = sender.id
  stored : ∀ delivery target k, h.delivery = some (delivery, target) →
    delivery.append = some k → k < n.stored.length
  target : ∀ delivery sender k, h.delivery = some (delivery, some sender) →
    delivery.append = some k → ∀ r ∈ n.receivers, r.isOpen = true → r.openedAt ≤ k →
    sender.id = r.channel

/-- The channels look the same. -/
structure SameView (n n' : Node) : Prop where
  registered : n'.registered = n.registered
  receivers : n'.receivers = n.receivers
  stored : n'.stored = n.stored
  deliveries : n'.deliveries = n.deliveries

variable {n n' : Node} {h : Hand}

theorem World.congr (hw : n.World) (hsame : SameView n n') : n'.World where
  attached := by
    rw [hsame.receivers, hsame.registered]
    exact hw.attached
  count := by
    rw [hsame.receivers, hsame.registered]
    exact hw.count
  stored := by
    rw [hsame.deliveries, hsame.stored]
    exact hw.stored
  sent := by
    rw [hsame.receivers, hsame.deliveries]
    exact hw.sent

theorem HandOk.congr (hok : n.HandOk h) (hsame : SameView n n') : n'.HandOk h where
  sender := by
    rw [hsame.registered]
    exact hok.sender
  stored := by
    rw [hsame.stored]
    exact hok.stored
  target := by
    rw [hsame.receivers]
    exact hok.target

/-- Requests alone do not matter. -/
theorem handOk_ofRequests (n : Node) (requests : List Tagged) :
    n.HandOk (.ofRequests requests) where
  sender := by rintro sender ⟨⟩
  stored := by rintro delivery target k ⟨⟩
  target := by rintro delivery sender k ⟨⟩

/-- Open receivers are attached to the channel that is registered. -/
theorem World.id_eq (hw : n.World) {channel : Channel} (hreg : n.registered = some channel)
    {r : Receiver} (hr : r ∈ n.receivers) (hopen : r.isOpen = true) : channel.id = r.channel := by
  obtain ⟨channel', hreg', hid⟩ := hw.attached r hr hopen
  rw [hreg] at hreg'
  cases hreg'
  exact hid

theorem HandOk.id_eq (hok : n.HandOk h) {channel sender : Channel}
    (hreg : n.registered = some channel) (hs : h.sender = some sender) :
    channel.id = sender.id := by
  obtain ⟨channel', hreg', hid⟩ := hok.sender sender hs
  rw [hreg] at hreg'
  cases hreg'
  exact hid

/-- **A channel without receivers has no open streams.** -/
theorem World.not_isOpen (hw : n.World)
    (hfree : ∀ channel, n.registered = some channel → channel.receiverCount = 0) :
    ∀ r ∈ n.receivers, r.isOpen = false := by
  intro r hr
  by_contra hopen
  rw [Bool.not_eq_false] at hopen
  obtain ⟨channel, hreg, -⟩ := hw.attached r hr hopen
  have hcount := hw.count channel hreg
  rw [hfree channel hreg] at hcount
  have hpos := List.countP_pos_iff.mpr ⟨r, hr, hopen⟩
  omega

/-! ### Getting a channel -/

theorem registered_newChannel (b : Broker) :
    (b.newChannel.2).channels.lookup b.newChannel.2.partitionId = some b.newChannel.1 :=
  Finmap.lookup_insert _

/-- A new channel is registered where the old one, if there was one, has no
receivers. -/
structure Replaces (n : Node) (task : Task) (sender : Channel) (n' : Node) : Prop where
  registered : n'.registered = some sender
  free : sender.receiverCount = 0
  receivers : n'.receivers = n.receivers
  stored : n'.stored = n.stored
  deliveries : n'.deliveries = n.deliveries
  old : ∀ old, n.registered = some old → old.receiverCount = 0 ∧ task.ensuresChannel = true

theorem replaces_newChannel {task : Task}
    (hold : ∀ old, n.registered = some old →
      old.receiverCount = 0 ∧ task.ensuresChannel = true) :
    Replaces n task n.broker.newChannel.1 { n with broker := n.broker.newChannel.2 } where
  registered := registered_newChannel n.broker
  free := rfl
  receivers := rfl
  stored := rfl
  deliveries := rfl
  old := hold

/-- A task gets the registered channel, or it replaces it. -/
theorem acquire_cases {task : Task} {channel : Broker → Channel × Broker}
    (hch : Channeling task channel) (n : Node) :
    (n.registered = some (n.acquire channel).1 ∧ (n.acquire channel).2 = n) ∨
      Replaces n task (n.acquire channel).1 (n.acquire channel).2 := by
  -- what the task gets depends on the channel that is registered
  have hkept : ∀ old, n.registered = some old → channel n.broker = (old, n.broker) →
      n.registered = some (n.acquire channel).1 ∧ (n.acquire channel).2 = n := by
    intro old hreg hchannel
    rw [acquire, hchannel]
    exact ⟨hreg, rfl⟩
  have hnew : channel n.broker = n.broker.newChannel →
      (∀ old, n.registered = some old → old.receiverCount = 0 ∧ task.ensuresChannel = true) →
      Replaces n task (n.acquire channel).1 (n.acquire channel).2 := by
    intro hchannel hold
    rw [acquire, hchannel]
    exact replaces_newChannel hold
  cases hreg : n.registered with
  | none =>
      have hlookup : n.broker.channels.lookup n.broker.partitionId = none := hreg
      refine .inr (hnew ?_ (by rw [hreg]; rintro old ⟨⟩))
      rcases hch with ⟨rfl, -⟩ | rfl
      · rw [Broker.ensureChannel, hlookup]
      · rw [Broker.flusherChannel, hlookup]
  | some old =>
      have hlookup : n.broker.channels.lookup n.broker.partitionId = some old := hreg
      rcases hch with ⟨rfl, hensures⟩ | rfl
      · by_cases hpos : old.receiverCount > 0
        · refine .inl (hreg ▸ hkept old hreg ?_)
          simp only [Broker.ensureChannel, hlookup, if_pos hpos]
        · refine .inr (hnew ?_ ?_)
          · simp only [Broker.ensureChannel, hlookup, if_neg hpos]
          · rw [hreg]
            rintro old' ⟨⟩
            exact ⟨Nat.eq_zero_of_not_pos hpos, hensures⟩
      · refine .inl (hreg ▸ hkept old hreg ?_)
        rw [Broker.flusherChannel, hlookup]

/-! ### Steps of the tasks -/

/-- The task does not replace a channel of which there is a sender in these
hands. -/
def Calm (n : Node) (task : Task) (h : Hand) : Prop :=
  task.ensuresChannel = true → ∀ channel, n.registered = some channel →
    channel.receiverCount = 0 → ∀ sender, h.sender = some sender → sender.id ≠ channel.id

/-- What a step of a task is to keep: the world, its own hands, and those of the
others. -/
structure Keeps (n : Node) (task : Task) (n' : Node) (h' : Hand) : Prop where
  world : n'.World
  own : n'.HandOk h'
  others : ∀ g, n.HandOk g → n.Calm task g → n'.HandOk g

theorem Keeps.of_sameView {task : Task} (hw : n.World) (hsame : SameView n n') {h' : Hand}
    (hown : n.HandOk h') : Keeps n task n' h' where
  world := hw.congr hsame
  own := hown.congr hsame
  others _ hg _ := hg.congr hsame

/-- The channel is replaced: nobody listens, and nobody has a sender of it. -/
theorem Replaces.keeps {task : Task} {sender : Channel} {h' : Hand}
    (hnew : Replaces n task sender n') (hw : n.World)
    (hown : ∀ s, h'.sender = some s → s = sender)
    (hidx : ∀ delivery target k, h'.delivery = some (delivery, target) →
      delivery.append = some k → k < n.stored.length) : Keeps n task n' h' := by
  have hclosed : ∀ r ∈ n'.receivers, ¬ r.isOpen = true := by
    intro r hr
    rw [hnew.receivers] at hr
    rw [Bool.not_eq_true]
    exact hw.not_isOpen (fun channel hchannel => (hnew.old channel hchannel).1) r hr
  constructor
  · constructor
    · intro r hr hopen
      exact absurd hopen (hclosed r hr)
    · intro channel hchannel
      rw [hnew.registered] at hchannel
      cases hchannel
      rw [hnew.free, List.countP_eq_zero.mpr hclosed]
    · rw [hnew.deliveries, hnew.stored]
      exact hw.stored
    · intro r hr hopen
      exact absurd hopen (hclosed r hr)
  · constructor
    · intro s hs
      exact ⟨sender, hnew.registered, by rw [hown s hs]⟩
    · rw [hnew.stored]
      exact hidx
    · intro _ _ _ _ _ r hr hopen
      exact absurd hopen (hclosed r hr)
  · intro g hg hcalm
    constructor
    · -- a sender of the old channel would be in the way
      intro s hs
      obtain ⟨old, hold, hid⟩ := hg.sender s hs
      obtain ⟨hfree, hensures⟩ := hnew.old old hold
      exact absurd hid.symm (hcalm hensures old hold hfree s hs)
    · rw [hnew.stored]
      exact hg.stored
    · intro _ _ _ _ _ r hr hopen
      exact absurd hopen (hclosed r hr)

/-- A message is stored. -/
theorem World.store (hw : n.World) {entry : Tagged × Int64} (hreg : n'.registered = n.registered)
    (hrec : n'.receivers = n.receivers) (hstored : n'.stored = n.stored ++ [entry])
    (hdel : n'.deliveries = n.deliveries) : n'.World where
  attached := by
    rw [hrec, hreg]
    exact hw.attached
  count := by
    rw [hrec, hreg]
    exact hw.count
  stored := by
    rw [hdel, hstored, List.length_append]
    intro sender delivery k hmem hk
    have hlt := hw.stored sender delivery k hmem hk
    omega
  sent := by
    rw [hrec, hdel]
    exact hw.sent

theorem HandOk.store (hok : n.HandOk h) {entry : Tagged × Int64}
    (hreg : n'.registered = n.registered) (hrec : n'.receivers = n.receivers)
    (hstored : n'.stored = n.stored ++ [entry]) : n'.HandOk h where
  sender := by
    rw [hreg]
    exact hok.sender
  stored := by
    rw [hstored, List.length_append]
    intro delivery target k hdel hk
    have hlt := hok.stored delivery target k hdel hk
    omega
  target := by
    rw [hrec]
    exact hok.target

/-- A response goes to the streams, which keep their receivers. -/
theorem receivers_send (n : Node) (sender : Channel) (delivery : Delivery) :
    (n.send sender delivery).receivers = n.receivers := by
  have hpush : ∀ st : Stream, (st.push delivery).receiver = st.receiver := by
    intro st
    unfold Stream.push
    split <;> rfl
  simp only [receivers, send, List.map_map]
  apply List.map_congr_left
  intro st _
  simp only [Function.comp_apply]
  split
  · exact hpush st
  · rfl

theorem registered_countReceivers (n : Node) (channel : Nat) (f : Nat → Nat) :
    (n.broker.countReceivers channel f).channels.lookup n.broker.partitionId =
      n.registered.map fun c =>
        if c.id = channel then { c with receiverCount := f c.receiverCount } else c := by
  rw [Broker.countReceivers, HashMap.lookup_modify, if_pos rfl, registered]

theorem sameView_ensureTopic (n : Node) (topic : String) :
    SameView n (n.ensureTopic topic) := by
  unfold ensureTopic
  split <;> exact ⟨rfl, rfl, rfl, rfl⟩

/-- A sender that `n` had is one that the world after an append has. -/
theorem HandOk.storeBatched (hok : n.HandOk h) (hw : n.World) {sender : Channel}
    (hsender : h.sender = some sender) {h' : Hand} {delivery : Delivery}
    (hnext : h'.sender = none ∨ h'.sender = some sender)
    (hdel : h'.delivery = some (delivery, some sender))
    (hidx : ∀ k, delivery.append = some k → k = n.stored.length) {entry : Tagged × Int64}
    (hreg : n'.registered = n.registered) (hrec : n'.receivers = n.receivers)
    (hstored : n'.stored = n.stored ++ [entry]) : n'.HandOk h' := by
  obtain ⟨channel, hchannel, hid⟩ := hok.sender sender hsender
  constructor
  · intro s hs
    rcases hnext with hnone | hsome
    · rw [hnone] at hs
      cases hs
    · rw [hsome] at hs
      cases hs
      exact ⟨channel, by rw [hreg, hchannel], hid⟩
  · intro d target k hd hk
    rw [hdel] at hd
    cases hd
    rw [hidx k hk, hstored, List.length_append]
    exact Nat.lt_succ_self _
  · intro d s k hd hk r hr hopen hle
    rw [hdel] at hd
    cases hd
    -- the open streams and the sender belong to the same channel
    rw [hrec] at hr
    rw [← hid, hw.id_eq hchannel hr hopen]

theorem keeps_send {task : Task} (hw : n.World) {requests : List Tagged}
    {next : Option Channel} {sender : Channel} {delivery : Delivery}
    (hok : n.HandOk ⟨requests, next, some (delivery, some sender)⟩) :
    Keeps n task (n.send sender delivery) ⟨requests, next, none⟩ := by
  have hrec := receivers_send n sender delivery
  constructor
  · constructor
    · rw [hrec]
      exact hw.attached
    · rw [hrec]
      exact hw.count
    · intro s d k hmem hk
      rcases List.mem_append.mp hmem with hold | hnew
      · exact hw.stored s d k hold hk
      · cases List.mem_singleton.mp hnew
        exact hok.stored delivery (some sender) k rfl hk
    · intro r hr hopen s d k hmem hk hle
      rw [hrec] at hr
      rcases List.mem_append.mp hmem with hold | hnew
      · exact hw.sent r hr hopen s d k hold hk hle
      · cases List.mem_singleton.mp hnew
        exact hok.target delivery sender k rfl hk r hr hopen hle
  · exact ⟨hok.sender, by rintro _ _ _ ⟨⟩, by rintro _ _ _ ⟨⟩⟩
  · intro g hg _
    refine ⟨hg.sender, hg.stored, ?_⟩
    rw [hrec]
    exact hg.target

/-- Receivers come or go on the registered channel, which counts them.  A receiver
that is open afterwards was so before, or has just been attached. -/
structure Recounts (n n' : Node) (channel channel' : Channel) : Prop where
  before : n.registered = some channel
  after : n'.registered = some channel'
  id_eq : channel'.id = channel.id
  count : channel'.receiverCount = n'.receivers.countP Receiver.isOpen
  open_cases : ∀ r ∈ n'.receivers, r.isOpen = true →
    r ∈ n.receivers ∨ (channel.id = r.channel ∧ n.stored.length ≤ r.openedAt)
  stored : n'.stored = n.stored
  deliveries : n'.deliveries = n.deliveries

theorem Recounts.world {channel channel' : Channel} (hre : Recounts n n' channel channel')
    (hw : n.World) : n'.World where
  attached r hr hopen := by
    refine ⟨channel', hre.after, ?_⟩
    rw [hre.id_eq]
    rcases hre.open_cases r hr hopen with hold | ⟨hid, -⟩
    · exact hw.id_eq hre.before hold hopen
    · exact hid
  count c hc := by
    rw [hre.after] at hc
    cases hc
    exact hre.count
  stored := by
    rw [hre.deliveries, hre.stored]
    exact hw.stored
  sent r hr hopen s d k hmem hk hle := by
    rw [hre.deliveries] at hmem
    rcases hre.open_cases r hr hopen with hold | ⟨-, hnew⟩
    · exact hw.sent r hold hopen s d k hmem hk hle
    · -- nothing has been stored since the stream was opened
      have hlt := hw.stored s d k hmem hk
      omega

theorem Recounts.handOk {channel channel' : Channel} (hre : Recounts n n' channel channel')
    (hok : n.HandOk h) : n'.HandOk h where
  sender s hs := ⟨channel', hre.after, hre.id_eq.trans (hok.id_eq hre.before hs)⟩
  stored := by
    rw [hre.stored]
    exact hok.stored
  target d s k hd hk r hr hopen hle := by
    rcases hre.open_cases r hr hopen with hold | ⟨-, hnew⟩
    · exact hok.target d s k hd hk r hold hopen hle
    · have hlt := hok.stored d (some s) k hd hk
      omega

/-- A stream is opened on the registered channel. -/
theorem recounts_openStream (hw : n.World) {sender channel : Channel} {req : ConsumeRequest}
    (hreg : n.registered = some channel) (hid : channel.id = sender.id) :
    Recounts n (n.openStream req sender) channel
      { channel with receiverCount := channel.receiverCount + 1 } := by
  have hrec : (n.openStream req sender).receivers =
      n.receivers ++ [⟨true, sender.id, n.stored.length⟩] := List.map_append
  refine ⟨hreg, ?_, rfl, ?_, fun r hr _ => ?_, rfl, rfl⟩
  · show (n.broker.countReceivers sender.id (· + 1)).channels.lookup n.broker.partitionId = _
    rw [registered_countReceivers, hreg, Option.map_some, if_pos hid]
  · rw [hrec, List.countP_append, ← hw.count channel hreg]
    rfl
  · rw [hrec] at hr
    rcases List.mem_append.mp hr with hold | hnew
    · exact .inl hold
    · rw [List.mem_singleton.mp hnew]
      exact .inr ⟨hid, Nat.le_refl _⟩

theorem keeps_subscribe {task : Task} (hw : n.World) {sender : Channel} {req : ConsumeRequest}
    (hok : n.HandOk ⟨[], some sender, none⟩) :
    Keeps n task (n.openStream req sender) .empty := by
  obtain ⟨channel, hreg, hid⟩ := hok.sender sender rfl
  have hre : Recounts n (n.openStream req sender) channel
      { channel with receiverCount := channel.receiverCount + 1 } :=
    recounts_openStream hw hreg hid
  exact ⟨hre.world hw, handOk_ofRequests _ [], fun g hg _ => hre.handOk hg⟩

/-- **Step lemma for the tasks.** -/
theorem Effect.keeps {env : StepEnv} {i : Nat} {task : Task} {h' : Hand}
    (heffect : Effect env n i task h h' n') (hw : n.World) (hok : n.HandOk h) :
    Keeps n task n' h' := by
  cases heffect with
  | ensureTopic hown =>
      exact .of_sameView hw (sameView_ensureTopic n _) (handOk_ofRequests n _)
  | addMessage hadd =>
      refine .of_sameView hw ?_ (handOk_ofRequests n [])
      exact ⟨rfl, rfl, rfl, rfl⟩
  | getReadyBatches =>
      refine .of_sameView hw ?_ (handOk_ofRequests n _)
      exact ⟨rfl, rfl, rfl, rfl⟩
  | pass processor hsub =>
      refine .of_sameView hw ?_ (handOk_ofRequests n _)
      exact ⟨rfl, rfl, rfl, rfl⟩
  | respond counter hid =>
      refine .of_sameView hw ?_ (handOk_ofRequests n [])
      exact ⟨rfl, rfl, rfl, rfl⟩
  | acquire hch hsub hsender =>
      rcases acquire_cases hch n with ⟨hreg, hsame⟩ | hnew
      · rw [hsame]
        refine .of_sameView hw ⟨rfl, rfl, rfl, rfl⟩ ⟨?_, by rintro _ _ _ ⟨⟩, by rintro _ _ _ ⟨⟩⟩
        rintro s hs
        rcases hsender with rfl | rfl
        · cases hs
        · cases hs
          exact ⟨_, hreg, rfl⟩
      · refine hnew.keeps hw ?_ (by rintro _ _ _ ⟨⟩)
        rintro s hs
        rcases hsender with rfl | rfl <;> cases hs
        rfl
  | acquireFor hch =>
      rename_i delivery channel
      rcases acquire_cases hch n with ⟨hreg, hsame⟩ | hnew
      · rw [hsame]
        refine .of_sameView hw ⟨rfl, rfl, rfl, rfl⟩ ⟨by rintro _ ⟨⟩, ?_, ?_⟩
        · rintro d target k ⟨⟩ hk
          exact hok.stored delivery none k rfl hk
        · rintro d s k ⟨⟩ hk r hr hopen -
          exact hw.id_eq hreg hr hopen
      · apply hnew.keeps hw (by rintro _ ⟨⟩)
        rintro d target k ⟨⟩ hk
        exact hok.stored delivery none k rfl hk
  | storeBatched hnext hstore =>
      obtain rfl := store_eq_some hstore
      refine ⟨hw.store rfl rfl rfl rfl, ?_, fun g hg _ => hg.store rfl rfl rfl⟩
      exact hok.storeBatched hw rfl hnext rfl (by rintro k ⟨⟩; rfl) rfl rfl rfl
  | countBatched counter hnext hstore =>
      obtain ⟨-, rfl⟩ := store_eq_none hstore
      refine .of_sameView hw ?_ ⟨?_, ?_, ?_⟩
      · exact ⟨rfl, rfl, rfl, rfl⟩
      · intro s hs
        rcases hnext with rfl | rfl
        · cases hs
        · exact hok.sender s hs
      · rintro d target k ⟨⟩ ⟨⟩
      · rintro d s k ⟨⟩ ⟨⟩
  | storeDirect hstore =>
      obtain rfl := store_eq_some hstore
      refine ⟨hw.store rfl rfl rfl rfl, ⟨by rintro _ ⟨⟩, ?_, by rintro _ _ _ ⟨⟩⟩,
        fun g hg _ => hg.store rfl rfl rfl⟩
      rintro d target k ⟨⟩ ⟨⟩
      show n.stored.length < (n.stored ++ [_]).length
      rw [List.length_append]
      exact Nat.lt_succ_self _
  | failDirect hstore =>
      obtain ⟨-, rfl⟩ := store_eq_none hstore
      exact .of_sameView hw ⟨rfl, rfl, rfl, rfl⟩ (handOk_ofRequests _ [])
  | send => exact keeps_send hw hok
  | subscribe => exact keeps_subscribe hw hok

/-! ### Steps of the broker -/

/-- The world of the channels and what all tasks have in their hands. -/
structure Wired (n : Node) : Prop where
  world : n.World
  hands : ∀ (i : Nat) (task : Task), n.tasks[i]? = some task → n.HandOk (task.hand i)

theorem Wired.attached (hwired : n.Wired) : n.Attached where
  attached st hst hopen := hwired.world.attached st.receiver (List.mem_map_of_mem hst) hopen
  sent st hst hopen := hwired.world.sent st.receiver (List.mem_map_of_mem hst) hopen

theorem Wired.of_sameView (hwired : n.Wired) (hsame : SameView n n') (htasks : n'.tasks = n.tasks) :
    n'.Wired where
  world := hwired.world.congr hsame
  hands i task hi := (hwired.hands i task (htasks ▸ hi)).congr hsame

theorem sameView_tasks (n : Node) (tasks : List Task) : SameView n { n with tasks := tasks } :=
  ⟨rfl, rfl, rfl, rfl⟩

theorem Wired.spawn (hwired : n.Wired) {task : Task} (hempty : ∀ i, task.hand i = .empty) :
    (n.spawn task).Wired where
  world := hwired.world.congr (sameView_tasks n _)
  hands i task' hi := by
    rcases getElem?_concat_cases hi with hold | ⟨rfl, rfl⟩
    · exact (hwired.hands i task' hold).congr (sameView_tasks n _)
    · rw [hempty]
      exact handOk_ofRequests _ []

theorem mem_senders {i : Nat} {task : Task} {sender : Channel} (hi : n.tasks[i]? = some task)
    (hs : (task.hand i).sender = some sender) : sender ∈ n.senders := by
  refine List.mem_filterMap.mpr ⟨i, ?_, ?_⟩
  · exact List.mem_range.mpr (List.getElem?_eq_some_iff.mp hi).1
  · rw [hi, Option.bind_some, hs]

/-- A step that keeps the senders leaves all hands alone. -/
theorem calm_of_keepsSenders {i : Nat} {env : StepEnv} {task : Task}
    (hi : n.tasks[i]? = some task) (hkeeps : n.keepsSenders (.task i env) = true)
    {j : Nat} {task' : Task} (hj : n.tasks[j]? = some task') : n.Calm task (task'.hand j) := by
  intro hensures channel hreg hzero sender hs
  simp only [keepsSenders, hi, hreg, hensures, hzero, decide_true, Bool.and_self,
    Bool.not_true, Bool.false_or, List.all_eq_true] at hkeeps
  simpa using hkeeps sender (mem_senders hj hs)

theorem Wired.task (hwired : n.Wired) {i : Nat} {env : StepEnv}
    (hkeeps : n.keepsSenders (.task i env) = true) : (n.step (.task i env)).Wired := by
  cases hi : n.tasks[i]? with
  | none =>
      simp only [step, hi]
      exact hwired
  | some task =>
      have heffect := effect_stepTask env n i task
      have hstep := heffect.keeps hwired.world (hwired.hands i task hi)
      have htasks := heffect.tasks_eq
      simp only [step, hi]
      generalize n.stepTask env i task = r at hstep htasks
      have hsame := sameView_tasks r.2 (r.2.tasks.set i r.1)
      refine ⟨hstep.world.congr hsame, fun j task' hj => ?_⟩
      rcases getElem?_set_cases hj with ⟨rfl, rfl⟩ | ⟨-, hold⟩
      · exact hstep.own.congr hsame
      · have hold' : n.tasks[j]? = some task' := htasks ▸ hold
        have hother := hstep.others _ (hwired.hands j task' hold')
          (calm_of_keepsSenders hi hkeeps hold')
        exact hother.congr hsame

/-- The streams change, but not their receivers. -/
theorem receivers_set {i : Nat} {st st' : Stream} (hi : n.streams[i]? = some st)
    (hsame : st'.receiver = st.receiver) :
    (n.streams.set i st').map Stream.receiver = n.receivers := by
  apply List.ext_getElem?
  intro j
  rw [receivers, List.getElem?_map, List.getElem?_map, List.getElem?_set]
  by_cases hj : i = j
  · subst hj
    have hlt := (List.getElem?_eq_some_iff.mp hi).1
    rw [if_pos rfl, if_pos hlt, hi, Option.map_some, Option.map_some, hsame]
  · rw [if_neg hj]

theorem Wired.setStream (hwired : n.Wired) {i : Nat} {st st' : Stream}
    (hi : n.streams[i]? = some st) (hstreams : n'.streams = n.streams.set i st')
    (hsame : st'.receiver = st.receiver) (hbroker : n'.broker = n.broker)
    (hstored : n'.stored = n.stored) (hdel : n'.deliveries = n.deliveries)
    (htasks : n'.tasks = n.tasks) : n'.Wired := by
  refine hwired.of_sameView ⟨?_, ?_, hstored, hdel⟩ htasks
  · rw [registered, hbroker]
    rfl
  · rw [receivers, hstreams]
    exact receivers_set hi hsame

/-- An open stream is closed. -/
theorem recounts_closeStream (hw : n.World) {i : Nat} {st st' : Stream}
    (hi : n.streams[i]? = some st) (hsame : st'.receiver = st.receiver)
    (hopen : st.isOpen = true) {channel : Channel} (hreg : n.registered = some channel) :
    Recounts n (n.closeStream i st') channel
      { channel with receiverCount := channel.receiverCount - 1 } := by
  have hmem : st.receiver ∈ n.receivers := List.mem_map_of_mem (List.mem_of_getElem? hi)
  have hid : channel.id = st.channel := hw.id_eq hreg hmem hopen
  have hrec : (n.closeStream i st').receivers =
      n.receivers.set i { st'.receiver with isOpen := false } := List.map_set
  refine ⟨hreg, ?_, rfl, ?_, fun r hr hropen => ?_, rfl, rfl⟩
  · have hopen' : st'.isOpen = st.isOpen := congrArg Receiver.isOpen hsame
    have hchannel : st'.channel = st.channel := congrArg Receiver.channel hsame
    have hbroker : (n.closeStream i st').broker = n.broker.countReceivers st.channel (· - 1) := by
      simp [Node.closeStream, hopen', hopen, hchannel]
    rw [registered, hbroker]
    show (n.broker.countReceivers st.channel (· - 1)).channels.lookup n.broker.partitionId = _
    rw [registered_countReceivers, hreg, Option.map_some, if_pos hid]
  · obtain ⟨hlt, hget⟩ := List.getElem?_eq_some_iff.mp hi
    have hlt' : i < n.receivers.length := by simpa [receivers] using hlt
    have hget' : n.receivers[i] = st.receiver := by simp [receivers, hget]
    have hst : st.receiver.isOpen = true := hopen
    show channel.receiverCount - 1 = _
    rw [hrec, List.countP_set hlt', hw.count channel hreg, hget', hst]
    simp
  · -- an open receiver was there before
    rw [hrec] at hr
    rcases List.mem_or_eq_of_mem_set hr with hold | rfl
    · exact .inl hold
    · cases hropen

/-- A receiver is dropped. -/
theorem Wired.closeStream (hwired : n.Wired) {i : Nat} {st st' : Stream}
    (hi : n.streams[i]? = some st) (hsame : st'.receiver = st.receiver) :
    (n.closeStream i st').Wired := by
  by_cases hopen : st.isOpen = true
  · have hmem : st.receiver ∈ n.receivers := List.mem_map_of_mem (List.mem_of_getElem? hi)
    obtain ⟨channel, hreg, -⟩ := hwired.world.attached st.receiver hmem hopen
    have hre := recounts_closeStream hwired.world hi hsame hopen hreg
    exact ⟨hre.world hwired.world, fun j task hj => hre.handOk (hwired.hands j task hj)⟩
  · -- a stream that is closed has no receiver to drop
    rw [Bool.not_eq_true] at hopen
    have hopen' : st'.isOpen = false := (congrArg Receiver.isOpen hsame).trans hopen
    have hbroker : (n.closeStream i st').broker = n.broker := by
      simp [Node.closeStream, hopen']
    refine hwired.setStream hi rfl ?_ hbroker rfl rfl rfl
    rw [← hsame]
    simp [Stream.receiver, hopen']

theorem Wired.stepClient (hwired : n.Wired) {i : Nat} {st : Stream}
    (hi : n.streams[i]? = some st) (gone : Bool) : (n.stepClient i st gone).Wired := by
  unfold Node.stepClient
  split
  · split
    · exact hwired.closeStream hi rfl
    · split
      · exact hwired
      · exact hwired.setStream hi rfl rfl rfl rfl rfl rfl
  · exact hwired.setStream hi rfl rfl rfl rfl rfl rfl
  · exact hwired.setStream hi rfl rfl rfl rfl rfl rfl
  · -- the reported offset goes to another map
    rename_i delivery hclient
    have hset : Wired { n with
        streams := n.streams.set i
          { st with
            client := .receive
            offsets := st.offsets ++ [delivery.response.offset] } } :=
      hwired.setStream hi rfl rfl rfl rfl rfl rfl
    unfold Node.updateOffset
    split
    · exact hset
    · split
      · refine hset.of_sameView ?_ rfl
        exact ⟨rfl, rfl, rfl, rfl⟩
      · exact hset
  · exact hwired

/-- **Step lemma.** -/
theorem Wired.step (hwired : n.Wired) (label : NodeLabel)
    (hkeeps : n.keepsSenders label = true) : (n.step label).Wired := by
  cases label with
  | publish req =>
      apply hwired.spawn
      intro i
      split <;> rfl
  | forwardMessage req => exact hwired.spawn fun _ => rfl
  | consume req => exact hwired.spawn fun _ => rfl
  | subscribe topic =>
      exact hwired.of_sameView (sameView_ensureTopic n topic) (tasks_ensureTopic n topic)
  | task i env => exact hwired.task hkeeps
  | client i gone =>
      simp only [Node.step]
      split
      · rename_i st hi
        exact hwired.stepClient hi gone
      · exact hwired
  | close i =>
      simp only [Node.step]
      split
      · rename_i st hi
        exact hwired.closeStream hi rfl
      · exact hwired

theorem wired_start (partitionId totalPartitions : UInt32) (recovered : String → Log) :
    (start partitionId totalPartitions recovered).Wired where
  world := {
    attached := by rintro r ⟨⟩
    count := by rintro channel ⟨⟩
    stored := by rintro sender delivery k ⟨⟩
    sent := by rintro r ⟨⟩ }
  hands i task hi := by
    cases i with
    | zero =>
        cases hi
        exact handOk_ofRequests _ []
    | succ i => cases hi

/-- **No open stream is orphaned** in a run in which no channel is replaced while a
task has a sender of it in its hands. -/
theorem attached_of_keepsSenders (partitionId totalPartitions : UInt32)
    (recovered : String → Log) (labels : List NodeLabel)
    (hkeeps : Along step (fun n label => n.keepsSenders label = true)
      (start partitionId totalPartitions recovered) labels) :
    Always step Attached (start partitionId totalPartitions recovered) labels :=
  (Always.of_along (wired_start partitionId totalPartitions recovered) hkeeps
    fun _ label hwired hlabel => hwired.step label hlabel).mono fun _ hwired => hwired.attached

/-- A consumer of the topic `t`. -/
def consumeT : ConsumeRequest := ⟨"consumer", "t", ""⟩

/-- A consumer opens a stream, and then a message is forwarded to the broker. -/
def consumeThenForward : List NodeLabel :=
  .consume consumeT :: List.replicate 2 (.task 1 (PublishState.stepAt 0)) ++
    .forwardMessage ⟨"t", "k", "hi", 0⟩ :: List.replicate 5 (.task 2 (PublishState.stepAt 0))

/-- The stream gets it. -/
theorem consumeThenForward_attached :
    Along step (fun n label => n.keepsSenders label = true) (start 0 1 fun _ => [])
        consumeThenForward ∧
      Always step Attached (start 0 1 fun _ => []) consumeThenForward ∧
      (consumeThenForward.foldl step (start 0 1 fun _ => [])).streams.map
        (fun st => st.buffer.map fun delivery => delivery.response.payload) = [["hi"]] :=
  ⟨by decide, attached_of_keepsSenders 0 1 (fun _ => []) consumeThenForward (by decide),
    by decide⟩

/-- Two consumers come at the same time: the first one gets a channel, the second
one replaces it, and then the first one subscribes to what it has got. -/
def consumeTwice : List NodeLabel :=
  [.consume consumeT, .consume consumeT, .task 1 (PublishState.stepAt 0),
    .task 2 (PublishState.stepAt 0), .task 1 (PublishState.stepAt 0)]

/-- Its stream is attached to a channel that is not registered any more. -/
theorem consumeTwice_orphans :
    ¬ Always step Attached (start 0 1 fun _ => []) consumeTwice := by
  intro h
  have hstreams : (consumeTwice.foldl step (start 0 1 fun _ => [])).streams.map
      Stream.receiver = [⟨true, 0, 0⟩] := rfl
  have hreg : (consumeTwice.foldl step (start 0 1 fun _ => [])).registered = some ⟨1, 0⟩ := by
    decide
  have hlast := h.last
  generalize consumeTwice.foldl step (start 0 1 fun _ => []) = n at hstreams hreg hlast
  have hmem : (⟨true, 0, 0⟩ : Receiver) ∈ n.streams.map Stream.receiver := by
    rw [hstreams]
    exact List.mem_singleton_self _
  obtain ⟨st, hst, hrec⟩ := List.mem_map.mp hmem
  obtain ⟨channel, hchannel, hid⟩ := hlast.attached st hst (congrArg Receiver.isOpen hrec)
  rw [hreg] at hchannel
  cases hchannel
  have hzero : st.channel = 0 := congrArg Receiver.channel hrec
  rw [hzero] at hid
  cases hid

end Node

end Rafka
