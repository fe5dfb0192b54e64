/-
Rafka/Delivery.lean

How often a stored message is sent, and what of it a stream gets
(`Broker::publish`, `Broker::forward_message` and `Broker::consume` in
`crates/broker/src/broker.rs`, and `Consumer::consume` in
`crates/consumer/src/consumer.rs`).

A message is stored first and sent later, by the same task, on a sender that it
may have got before or gets in between.  A broadcast receiver keeps what is sent
on its channel up to the capacity; beyond that it drops the oldest response and
the stream ends when it is read next.

Main results: each append is sent exactly once, unless its task has not come to
the `send` yet (`broadcast_once`); a stream receives what is sent on its channel
from the beginning of the stream on, in that order and without gaps, until it
lags (`streams_in_order`); and if no channel is replaced while a task has a sender
of it, every message stored since a stream was opened reaches the stream exactly
once (`delivered_once`).
-/
import Rafka.Isolation
import Rafka.Streams

namespace Rafka

/-- The appends of the response that a task has in its hands. -/
def Hand.appends (h : Hand) : List Nat := (h.delivery.bind fun d => d.1.append).toList

/-- What a task has to send does not depend on its number. -/
theorem Task.delivery_hand (task : Task) (i j : Nat) :
    (task.hand i).delivery = (task.hand j).delivery := by
  cases task with
  | flusher drain => rfl
  | publish req phase =>
      cases phase with
      | single direct => cases direct <;> rfl
      | _ => rfl
  | forwardMessage req phase =>
      cases phase with
      | direct direct => cases direct <;> rfl
      | _ => rfl
  | consume req phase => cases phase <;> rfl

namespace Node

/-- The appends that were sent, in order. -/
def sentAppends (n : Node) : List Nat := n.deliveries.filterMap fun d => d.2.append

/-- The appends that tasks are still to send. -/
def heldAppends (n : Node) : List Nat := n.tasks.flatMap fun task => (task.hand 0).appends

/-- Each append is sent once, or there is one task that is to send it, and nothing
else is sent as one; what was sent names the message and the offset of the append. -/
structure BroadcastOnce (n : Node) : Prop where
  once : ∀ a, n.sentAppends.count a + n.heldAppends.count a = if a < n.stored.length then 1 else 0
  sent : ∀ sender delivery a, (sender, delivery) ∈ n.deliveries → delivery.append = some a →
    n.stored[a]? = some (delivery.request, delivery.response.offset)
  held : ∀ task ∈ n.tasks, ∀ delivery target a,
    (task.hand 0).delivery = some (delivery, target) → delivery.append = some a →
    n.stored[a]? = some (delivery.request, delivery.response.offset)

variable {n n' : Node} {h h' : Hand} {env : StepEnv} {i : Nat} {task : Task}

/-! ### Sending -/

/-- An append gives its task one more to send, and a `send` one less. -/
theorem Effect.count_appends (heffect : Effect env n i task h h' n') (a : Nat) :
    n'.sentAppends.count a + h'.appends.count a + (if a < n.stored.length then 1 else 0) =
      n.sentAppends.count a + h.appends.count a + if a < n'.stored.length then 1 else 0 := by
  have hnew : ([n.stored.length] : List Nat).count a + (if a < n.stored.length then 1 else 0) =
      if a < n.stored.length + 1 then 1 else 0 := by
    rw [List.count_singleton]
    simp only [beq_iff_eq]
    split_ifs <;> omega
  cases heffect with
  | ensureTopic hown =>
      unfold Node.ensureTopic
      split <;> rfl
  | addMessage hadd => rfl
  | getReadyBatches => rfl
  | pass processor hsub => rfl
  | respond counter hid => rfl
  | acquire hch hsub hsender => rfl
  | acquireFor hch => rfl
  | storeBatched hnext hstore =>
      obtain rfl := store_eq_some hstore
      simp only [List.length_append, List.length_singleton]
      rw [← hnew]
      simp only [sentAppends, Hand.appends, Option.bind_some, Option.bind_none, Option.toList_some,
        Option.toList_none, List.count_nil]
      omega
  | countBatched counter hnext hstore =>
      obtain ⟨-, rfl⟩ := store_eq_none hstore
      rfl
  | storeDirect hstore =>
      obtain rfl := store_eq_some hstore
      simp only [List.length_append, List.length_singleton]
      rw [← hnew]
      simp only [sentAppends, Hand.appends, Hand.ofRequests, Option.bind_some, Option.bind_none,
        Option.toList_some, Option.toList_none, List.count_nil]
      omega
  | failDirect hstore =>
      obtain ⟨-, rfl⟩ := store_eq_none hstore
      rfl
  | send =>
      rename_i sender delivery
      have hstored : (n.send sender delivery).stored = n.stored := rfl
      rw [hstored]
      simp only [sentAppends, Node.send, List.filterMap_append, Hand.appends, Option.bind_some,
        Option.bind_none, Option.toList_none, List.count_nil, List.count_append]
      cases hsent : delivery.append with
      | none => simp [hsent]
      | some b => simp [hsent]
  | subscribe => rfl

/-- What a task has to send is what was stored. -/
def HandNames (n : Node) (h : Hand) : Prop :=
  ∀ delivery target a, h.delivery = some (delivery, target) → delivery.append = some a →
    n.stored[a]? = some (delivery.request, delivery.response.offset)

/-- What is stored stays. -/
structure Stores (n n' : Node) : Prop where
  stored : ∀ (a : Nat) (entry : Tagged × Int64), n.stored[a]? = some entry →
    n'.stored[a]? = some entry
  sent : ∀ sender delivery a, (sender, delivery) ∈ n'.deliveries → delivery.append = some a →
    (sender, delivery) ∈ n.deliveries ∨
      n'.stored[a]? = some (delivery.request, delivery.response.offset)

theorem stores_of_eq (hstored : n'.stored = n.stored) (hsent : n'.deliveries = n.deliveries) :
    Stores n n' := by
  constructor
  · intro a entry ha
    rw [hstored]
    exact ha
  · intro sender delivery a hmem _
    rw [hsent] at hmem
    exact .inl hmem

theorem stores_append (entry : Tagged × Int64) (hstored : n'.stored = n.stored ++ [entry])
    (hsent : n'.deliveries = n.deliveries) : Stores n n' := by
  constructor
  · intro a other ha
    have hlt := (List.getElem?_eq_some_iff.mp ha).1
    rw [hstored, List.getElem?_append_left hlt]
    exact ha
  · intro sender delivery a hmem _
    rw [hsent] at hmem
    exact .inl hmem

/-- A step of a task adds to what is stored, and sends what was stored. -/
theorem Effect.stores (heffect : Effect env n i task h h' n') (hnames : n.HandNames h) :
    Stores n n' ∧ n'.HandNames h' := by
  -- the response for a message that has just been stored
  have hnew : ∀ (t : Tagged) (offset : Int64), (n.stored ++ [(t, offset)])[n.stored.length]? =
      some (t, offset) := fun t offset => List.getElem?_concat_length
  cases heffect with
  | ensureTopic hown =>
      refine ⟨?_, by rintro d target a ⟨⟩⟩
      unfold Node.ensureTopic
      split <;> exact stores_of_eq rfl rfl
  | addMessage hadd => exact ⟨stores_of_eq rfl rfl, by rintro d target a ⟨⟩⟩
  | getReadyBatches => exact ⟨stores_of_eq rfl rfl, by rintro d target a ⟨⟩⟩
  | pass processor hsub => exact ⟨stores_of_eq rfl rfl, by rintro d target a ⟨⟩⟩
  | respond counter hid => exact ⟨stores_of_eq rfl rfl, by rintro d target a ⟨⟩⟩
  | acquire hch hsub hsender => exact ⟨stores_of_eq rfl rfl, by rintro d target a ⟨⟩⟩
  | acquireFor hch =>
      refine ⟨stores_of_eq rfl rfl, ?_⟩
      rintro d target a ⟨⟩ ha
      exact hnames _ none a rfl ha
  | storeBatched hnext hstore =>
      obtain rfl := store_eq_some hstore
      refine ⟨stores_append _ rfl rfl, ?_⟩
      rintro d target a ⟨⟩ ⟨⟩
      exact hnew _ _
  | countBatched counter hnext hstore =>
      obtain ⟨-, rfl⟩ := store_eq_none hstore
      refine ⟨stores_of_eq rfl rfl, ?_⟩
      rintro d target a ⟨⟩ ⟨⟩
  | storeDirect hstore =>
      obtain rfl := store_eq_some hstore
      refine ⟨stores_append _ rfl rfl, ?_⟩
      rintro d target a ⟨⟩ ⟨⟩
      exact hnew _ _
  | failDirect hstore =>
      obtain ⟨-, rfl⟩ := store_eq_none hstore
      exact ⟨stores_of_eq rfl rfl, by rintro d target a ⟨⟩⟩
  | send =>
      refine ⟨⟨fun a entry ha => ha, ?_⟩, by rintro d target a ⟨⟩⟩
      intro sender d a hmem ha
      rcases List.mem_append.mp hmem with hold | hsent
      · exact .inl hold
      · cases List.mem_singleton.mp hsent
        exact .inr (hnames _ _ a rfl ha)
  | subscribe => exact ⟨stores_of_eq rfl rfl, by rintro d target a ⟨⟩⟩

/-- Tasks come and change, and nothing is stored or sent. -/
theorem BroadcastOnce.congr (h : n.BroadcastOnce) (hstored : n'.stored = n.stored)
    (hsent : n'.deliveries = n.deliveries)
    (htasks : ∃ new, n'.tasks = n.tasks ++ new ∧ ∀ task ∈ new, task.hand 0 = .empty) :
    n'.BroadcastOnce := by
  obtain ⟨new, htasks, hempty⟩ := htasks
  constructor
  · intro a
    have hnone : new.flatMap (fun task => (task.hand 0).appends) = [] := by
      apply List.flatMap_eq_nil_iff.mpr
      intro task hmem
      rw [hempty task hmem]
      rfl
    rw [sentAppends, heldAppends, hsent, htasks, hstored, List.flatMap_append, hnone,
      List.append_nil]
    exact h.once a
  · rw [hsent, hstored]
    exact h.sent
  · intro task hmem delivery target a hd ha
    rw [htasks] at hmem
    rw [hstored]
    rcases List.mem_append.mp hmem with hold | hnew
    · exact h.held task hold delivery target a hd ha
    · rw [hempty task hnew] at hd
      cases hd

theorem BroadcastOnce.stepTask (hbroadcast : n.BroadcastOnce) (i : Nat) (env : StepEnv) :
    (n.step (.task i env)).BroadcastOnce := by
  cases hi : n.tasks[i]? with
  | none =>
      simp only [step, hi]
      exact hbroadcast
  | some task =>
      have heffect := effect_stepTask env n i task
      have hmem := List.mem_of_getElem? hi
      have hnames : n.HandNames (task.hand i) := by
        intro delivery target a hd ha
        rw [task.delivery_hand i 0] at hd
        exact hbroadcast.held task hmem delivery target a hd ha
      obtain ⟨hstores, hnames'⟩ := heffect.stores hnames
      have hcount := heffect.count_appends
      have htasks := heffect.tasks_eq
      simp only [step, hi]
      generalize n.stepTask env i task = r at hstores hnames' hcount htasks
      have happends : ∀ (task : Task) (j : Nat), (task.hand 0).appends = (task.hand j).appends := by
        intro task j
        rw [Hand.appends, Hand.appends, task.delivery_hand 0 j]
      constructor
      · intro a
        have hset := count_flatMap_set (y := r.1) (fun task => (task.hand 0).appends) a hi
        have hold := hbroadcast.once a
        have hstep := hcount a
        rw [← happends task i, ← happends r.1 i] at hstep
        show r.2.sentAppends.count a +
          ((r.2.tasks.set i r.1).flatMap fun task => (task.hand 0).appends).count a =
            if a < r.2.stored.length then 1 else 0
        rw [htasks]
        rw [heldAppends] at hold
        omega
      · intro sender delivery a hsent ha
        rcases hstores.sent sender delivery a hsent ha with hbefore | hnow
        · exact hstores.stored a _ (hbroadcast.sent sender delivery a hbefore ha)
        · exact hnow
      · intro task' hmem' delivery target a hd ha
        have hmem' : task' ∈ r.2.tasks.set i r.1 := hmem'
        rw [htasks] at hmem'
        rcases List.mem_or_eq_of_mem_set hmem' with hother | rfl
        · exact hstores.stored a _ (hbroadcast.held task' hother delivery target a hd ha)
        · rw [Task.delivery_hand _ 0 i] at hd
          exact hnames' delivery target a hd ha

/-- **Step lemma.** -/
theorem BroadcastOnce.step (hbroadcast : n.BroadcastOnce) (label : NodeLabel) :
    (n.step label).BroadcastOnce := by
  -- requests come in, streams are read or closed
  have hframe : ∀ n', Frame n n' → n'.BroadcastOnce := fun n' hframe =>
    hbroadcast.congr hframe.stored hframe.deliveries
      ⟨[], by rw [hframe.tasks, List.append_nil], by rintro task ⟨⟩⟩
  cases label with
  | publish req =>
      refine hbroadcast.congr rfl rfl ⟨[_], rfl, fun task htask => ?_⟩
      rw [List.mem_singleton.mp htask]
      split <;> rfl
  | forwardMessage req =>
      refine hbroadcast.congr rfl rfl ⟨[_], rfl, fun task htask => ?_⟩
      rw [List.mem_singleton.mp htask]
      rfl
  | consume req =>
      refine hbroadcast.congr rfl rfl ⟨[_], rfl, fun task htask => ?_⟩
      rw [List.mem_singleton.mp htask]
      rfl
  | subscribe topic =>
      have hsame := sameView_ensureTopic n topic
      refine hbroadcast.congr hsame.stored hsame.deliveries ⟨[], ?_, by rintro task ⟨⟩⟩
      rw [List.append_nil]
      exact tasks_ensureTopic n topic
  | task i env => exact hbroadcast.stepTask i env
  | client i gone =>
      simp only [Node.step]
      split
      · exact hframe _ (frame_stepClient n i _ gone)
      · exact hbroadcast
  | close i =>
      simp only [Node.step]
      split
      · exact hframe _ (frame_closeStream n i _)
      · exact hbroadcast

theorem broadcastOnce_start (partitionId totalPartitions : UInt32) (recovered : String → Log) :
    (start partitionId totalPartitions recovered).BroadcastOnce where
  once a := by
    show 0 + 0 = if a < 0 then 1 else 0
    rw [if_neg (Nat.not_lt_zero a)]
  sent := by rintro sender delivery a ⟨⟩
  held := by
    intro task htask delivery target a hd
    rw [List.mem_singleton.mp htask] at hd
    cases hd

/-- **Each append is sent exactly once**, unless the task that made it has not come
to the `send` yet, and under the message and the offset it was stored with. -/
theorem broadcast_once (partitionId totalPartitions : UInt32) (recovered : String → Log)
    (labels : List NodeLabel) :
    Always step BroadcastOnce (start partitionId totalPartitions recovered) labels :=
  Always.of_along (C := fun _ _ => True)
    (broadcastOnce_start partitionId totalPartitions recovered)
    (Along.of_forall fun _ _ => trivial) fun _ label hbroadcast _ => hbroadcast.step label

/-! ### What a stream gets -/

/-- What was sent on a channel from the `k`-th call of `send` on. -/
def sentOn (n : Node) (channel k : Nat) : List Delivery :=
  ((n.deliveries.drop k).filter fun d => d.1.id = channel).map Prod.snd

/-- The stream has got what was sent on its channel since it was opened.  Only a stream
that lags has lost something: what came after that which it received. -/
structure Fed (n : Node) (st : Stream) (lost : List Delivery) : Prop where
  opened : st.sentBefore ≤ n.deliveries.length
  before : ∀ d ∈ n.deliveries.take st.sentBefore, ∀ a, d.2.append = some a → a < st.openedAt
  prefix_sent : st.received ++ lost ++ st.buffer <+: n.sentOn st.channel st.sentBefore
  current : st.isOpen = true →
    st.received ++ lost ++ st.buffer = n.sentOn st.channel st.sentBefore
  kept : st.lagged = false → lost = []
  reported : st.offsets ++ ((delivery? st.client).map fun d => d.response.offset).toList =
    st.received.map fun d => d.response.offset

/-- The stream receives what is sent on its channel since it was opened, in that order
and without gaps; as long as it is open and does not lag, what it has not received is
in the buffer; nothing comes twice; and the consumer reports the offsets of what it
received.  What was sent before is no message stored since. -/
structure InOrder (n : Node) (st : Stream) : Prop where
  opened : st.sentBefore ≤ n.deliveries.length
  before : ∀ d ∈ n.deliveries.take st.sentBefore, ∀ a, d.2.append = some a → a < st.openedAt
  received : st.received <+: n.sentOn st.channel st.sentBefore
  current : st.isOpen = true → st.lagged = false →
    st.received ++ st.buffer = n.sentOn st.channel st.sentBefore
  nodup : (st.received.filterMap Delivery.append).Nodup
  reported : st.offsets <+: st.received.map fun d => d.response.offset

variable {st st' : Stream} {lost : List Delivery}

theorem sentOn_append {sent : List (Channel × Delivery)}
    (hsent : n'.deliveries = n.deliveries ++ sent) (channel : Nat) {k : Nat}
    (hk : k ≤ n.deliveries.length) :
    n'.sentOn channel k =
      n.sentOn channel k ++ (sent.filter fun d => d.1.id = channel).map Prod.snd := by
  rw [sentOn, sentOn, hsent, List.drop_append_of_le_length hk, List.filter_append, List.map_append]

/-- The stream stays as it is, and nothing is sent that it would get. -/
theorem Fed.frame (h : n.Fed st lost) {sent : List (Channel × Delivery)}
    (hsent : n'.deliveries = n.deliveries ++ sent)
    (hother : st.isOpen = true → ∀ d ∈ sent, d.1.id ≠ st.channel) : n'.Fed st lost where
  opened := by
    rw [hsent, List.length_append]
    exact Nat.le_trans h.opened (Nat.le_add_right _ _)
  before := by
    rw [hsent, List.take_append_of_le_length h.opened]
    exact h.before
  prefix_sent := by
    rw [sentOn_append hsent _ h.opened]
    exact h.prefix_sent.trans (List.prefix_append _ _)
  current hopen := by
    have hnone : sent.filter (fun d => d.1.id = st.channel) = [] := by
      apply List.filter_eq_nil_iff.mpr
      intro d hd
      simpa using hother hopen d hd
    rw [sentOn_append hsent _ h.opened, hnone, List.map_nil, List.append_nil]
    exact h.current hopen
  kept := h.kept
  reported := h.reported

/-- Nothing is sent. -/
theorem Fed.congr (h : n.Fed st lost) (hsent : n'.deliveries = n.deliveries) :
    n'.Fed st lost := by
  apply h.frame
  · rw [hsent]
    exact (List.append_nil _).symm
  · rintro _ d ⟨⟩

/-- A response arrives. -/
theorem Fed.push (h : n.Fed st lost) {sender : Channel} {delivery : Delivery}
    (hopen : st.isOpen = true) (hid : st.channel = sender.id)
    (hsent : n'.deliveries = n.deliveries ++ [(sender, delivery)]) :
    ∃ lost', n'.Fed (st.push delivery) lost' := by
  have hnow : n'.sentOn st.channel st.sentBefore =
      n.sentOn st.channel st.sentBefore ++ [delivery] := by
    rw [sentOn_append hsent _ h.opened]
    simp [hid]
  have hopened : st.sentBefore ≤ n'.deliveries.length := by
    rw [hsent, List.length_append]
    exact Nat.le_trans h.opened (Nat.le_add_right _ _)
  have hbefore : ∀ d ∈ n'.deliveries.take st.sentBefore, ∀ a, d.2.append = some a →
      a < st.openedAt := by
    rw [hsent, List.take_append_of_le_length h.opened]
    exact h.before
  have hsofar := h.current hopen
  unfold Stream.push
  split
  · have heq : st.received ++ lost ++ (st.buffer ++ [delivery]) =
        n'.sentOn st.channel st.sentBefore := by
      rw [hnow, ← hsofar, List.append_assoc _ st.buffer]
    refine ⟨lost, hopened, hbefore, ?_, fun _ => heq, h.kept, h.reported⟩
    rw [heq]
  · -- the oldest response is dropped
    rename_i hfull
    cases hbuffer : st.buffer with
    | nil =>
        rw [hbuffer] at hfull
        exact absurd (by decide) hfull
    | cons oldest buffer =>
        have heq : st.received ++ (lost ++ [oldest]) ++ (buffer ++ [delivery]) =
            n'.sentOn st.channel st.sentBefore := by
          rw [hnow, ← hsofar, hbuffer]
          simp only [List.append_assoc, List.cons_append, List.nil_append]
        refine ⟨lost ++ [oldest], hopened, hbefore, ?_, fun _ => heq, ?_, h.reported⟩
        · show st.received ++ (lost ++ [oldest]) ++ (buffer ++ [delivery]) <+: _
          rw [heq]
        · rintro ⟨⟩

/-- All streams have got what was sent on their channels. -/
def AllFed (n : Node) : Prop := ∀ st ∈ n.streams, ∃ lost, n.Fed st lost

/-- Nothing is sent. -/
theorem AllFed.congr (h : n.AllFed) (hstreams : n'.streams = n.streams)
    (hsent : n'.deliveries = n.deliveries) : n'.AllFed := by
  intro st hst
  rw [hstreams] at hst
  obtain ⟨lost, hfed⟩ := h st hst
  exact ⟨lost, hfed.congr hsent⟩

theorem AllFed.send (h : n.AllFed) (sender : Channel) (delivery : Delivery) :
    (n.send sender delivery).AllFed := by
  intro st' hst'
  obtain ⟨st, hst, rfl⟩ := List.mem_map.mp hst'
  obtain ⟨lost, hfed⟩ := h st hst
  split
  · rename_i hattached
    have hpush : ∃ lost', (n.send sender delivery).Fed (st.push delivery) lost' :=
      hfed.push hattached.1 hattached.2 rfl
    obtain ⟨lost', hfed'⟩ := hpush
    exact ⟨lost', hfed'⟩
  · rename_i hother
    refine ⟨lost, hfed.frame rfl fun hopen d hd hid => ?_⟩
    rw [List.mem_singleton.mp hd] at hid
    exact hother ⟨hopen, hid.symm⟩

/-- A stream begins with what is sent next. -/
theorem AllFed.openStream (h : n.AllFed)
    (hstored : ∀ d ∈ n.deliveries, ∀ a, d.2.append = some a → a < n.stored.length)
    (req : ConsumeRequest) (sender : Channel) : (n.openStream req sender).AllFed := by
  intro st hst
  rcases List.mem_append.mp hst with hold | hnew
  · obtain ⟨lost, hfed⟩ := h st hold
    exact ⟨lost, hfed.congr rfl⟩
  · rw [List.mem_singleton.mp hnew]
    have hnone : (n.openStream req sender).sentOn sender.id n.deliveries.length = [] := by
      show ((n.deliveries.drop n.deliveries.length).filter _).map _ = []
      rw [List.drop_length]
      rfl
    refine ⟨[], Nat.le_refl _, ?_, ?_, fun _ => hnone.symm, fun _ => rfl, rfl⟩
    · intro d hd
      exact hstored d (List.mem_of_mem_take hd)
    · show [] <+: _
      exact List.nil_prefix

theorem Effect.allFed (heffect : Effect env n i task h h' n') (hfed : n.AllFed)
    (hstored : ∀ d ∈ n.deliveries, ∀ a, d.2.append = some a → a < n.stored.length) :
    n'.AllFed := by
  cases heffect with
  | ensureTopic hown =>
      unfold Node.ensureTopic
      split <;> exact hfed.congr rfl rfl
  | addMessage hadd => exact hfed.congr rfl rfl
  | getReadyBatches => exact hfed.congr rfl rfl
  | pass processor hsub => exact hfed.congr rfl rfl
  | respond counter hid => exact hfed.congr rfl rfl
  | acquire hch hsub hsender => exact hfed.congr rfl rfl
  | acquireFor hch => exact hfed.congr rfl rfl
  | storeBatched hnext hstore =>
      obtain rfl := store_eq_some hstore
      exact hfed.congr rfl rfl
  | countBatched counter hnext hstore =>
      obtain ⟨-, rfl⟩ := store_eq_none hstore
      exact hfed.congr rfl rfl
  | storeDirect hstore =>
      obtain rfl := store_eq_some hstore
      exact hfed.congr rfl rfl
  | failDirect hstore =>
      obtain ⟨-, rfl⟩ := store_eq_none hstore
      exact hfed
  | send => exact hfed.send _ _
  | subscribe => exact hfed.openStream hstored _ _

/-- One stream changes, and nothing is sent. -/
theorem AllFed.set (h : n.AllFed) {j : Nat} (hstreams : n'.streams = n.streams.set j st')
    (hsent : n'.deliveries = n.deliveries) (hst' : ∃ lost, n.Fed st' lost) : n'.AllFed := by
  intro st hst
  rw [hstreams] at hst
  have hfed : ∃ lost, n.Fed st lost := by
    rcases List.mem_or_eq_of_mem_set hst with hold | rfl
    · exact h st hold
    · exact hst'
  obtain ⟨lost, hfed⟩ := hfed
  exact ⟨lost, hfed.congr hsent⟩

theorem Fed.close (h : n.Fed st lost) : n.Fed { st with isOpen := false } lost :=
  ⟨h.opened, h.before, h.prefix_sent, by rintro ⟨⟩, h.kept, h.reported⟩

theorem AllFed.stepClient (h : n.AllFed) {j : Nat} (hj : n.streams[j]? = some st) (gone : Bool) :
    (n.stepClient j st gone).AllFed := by
  obtain ⟨lost, hfed⟩ := h st (List.mem_of_getElem? hj)
  have hreported := hfed.reported
  unfold Node.stepClient
  split
  · rename_i hclient
    rw [hclient] at hreported
    split
    · have hended : n.Fed { st with client := .ended } lost :=
        ⟨hfed.opened, hfed.before, hfed.prefix_sent, hfed.current, hfed.kept, hreported⟩
      exact h.set rfl rfl ⟨lost, hended.close⟩
    · rename_i hlagged
      rw [Bool.not_eq_true] at hlagged
      split
      · exact h
      · -- the stream has lost nothing so far
        rename_i delivery buffer hbuffer
        obtain rfl := hfed.kept hlagged
        have hmoved : ∀ sent : List Delivery, st.received ++ [] ++ st.buffer = sent →
            st.received ++ [delivery] ++ [] ++ buffer = sent := by
          rintro sent rfl
          rw [hbuffer]
          simp only [List.append_nil, List.append_assoc, List.cons_append, List.nil_append]
        refine h.set rfl rfl ⟨[], hfed.opened, hfed.before, ?_, fun hopen => ?_,
          fun _ => rfl, ?_⟩
        · show st.received ++ [delivery] ++ [] ++ buffer <+: _
          rw [hmoved _ rfl]
          exact hfed.prefix_sent
        · exact hmoved _ (hfed.current hopen)
        · simp only [delivery?, Option.map_none, Option.toList_none, List.append_nil] at hreported
          simp only [delivery?, Option.map_some, Option.toList_some, List.map_append, hreported]
          rfl
  · rename_i delivery hclient
    rw [hclient] at hreported
    exact h.set rfl rfl
      ⟨lost, hfed.opened, hfed.before, hfed.prefix_sent, hfed.current, hfed.kept, hreported⟩
  · rename_i delivery hclient
    rw [hclient] at hreported
    exact h.set rfl rfl
      ⟨lost, hfed.opened, hfed.before, hfed.prefix_sent, hfed.current, hfed.kept, hreported⟩
  · rename_i delivery hclient
    rw [hclient] at hreported
    have hset : AllFed { n with
        streams := n.streams.set j
          { st with
            client := .receive
            offsets := st.offsets ++ [delivery.response.offset] } } := by
      refine h.set rfl rfl
        ⟨lost, hfed.opened, hfed.before, hfed.prefix_sent, hfed.current, hfed.kept, ?_⟩
      rw [← hreported]
      exact List.append_nil _
    unfold Node.updateOffset
    split
    · exact hset
    · split
      · exact hset.congr rfl rfl
      · exact hset
  · exact h

/-- What a node has stored and sent, and what its streams have got. -/
structure Delivers (n : Node) : Prop where
  broadcast : n.BroadcastOnce
  fed : n.AllFed

theorem Delivers.stored_lt (h : n.Delivers) :
    ∀ d ∈ n.deliveries, ∀ a, d.2.append = some a → a < n.stored.length := by
  intro d hd a ha
  exact (List.getElem?_eq_some_iff.mp (h.broadcast.sent d.1 d.2 a hd ha)).1

/-- **Step lemma.** -/
theorem Delivers.step (h : n.Delivers) (label : NodeLabel) : (n.step label).Delivers := by
  refine ⟨h.broadcast.step label, ?_⟩
  cases label with
  | publish req => exact h.fed.congr rfl rfl
  | forwardMessage req => exact h.fed.congr rfl rfl
  | consume req => exact h.fed.congr rfl rfl
  | subscribe topic =>
      show (n.ensureTopic topic).AllFed
      unfold Node.ensureTopic
      split <;> exact h.fed.congr rfl rfl
  | task i env =>
      simp only [Node.step]
      split
      · rename_i task hi
        exact ((effect_stepTask env n i task).allFed h.fed h.stored_lt).congr rfl rfl
      · exact h.fed
  | client i gone =>
      simp only [Node.step]
      split
      · rename_i st hi
        exact h.fed.stepClient hi gone
      · exact h.fed
  | close i =>
      simp only [Node.step]
      split
      · rename_i st hi
        obtain ⟨lost, hfed⟩ := h.fed st (List.mem_of_getElem? hi)
        exact h.fed.set rfl rfl ⟨lost, hfed.close⟩
      · exact h.fed

theorem delivers_start (partitionId totalPartitions : UInt32) (recovered : String → Log) :
    (start partitionId totalPartitions recovered).Delivers :=
  ⟨broadcastOnce_start partitionId totalPartitions recovered, by rintro st ⟨⟩⟩

/-- A node delivers in every state of a run. -/
theorem delivers_always (partitionId totalPartitions : UInt32) (recovered : String → Log)
    (labels : List NodeLabel) :
    Always step Delivers (start partitionId totalPartitions recovered) labels :=
  Always.of_along (C := fun _ _ => True) (delivers_start partitionId totalPartitions recovered)
    (Along.of_forall fun _ _ => trivial) fun _ label h _ => h.step label

theorem BroadcastOnce.nodup (h : n.BroadcastOnce) : n.sentAppends.Nodup := by
  apply List.nodup_iff_count_le_one.mpr
  intro a
  have honce := h.once a
  split_ifs at honce <;> omega

/-- What was sent on one channel is part of what was sent. -/
theorem sentOn_sublist (n : Node) (channel k : Nat) :
    (n.sentOn channel k).Sublist (n.deliveries.map Prod.snd) :=
  (List.filter_sublist.trans (List.drop_sublist k _)).map Prod.snd

theorem sentAppends_eq (n : Node) :
    n.sentAppends = (n.deliveries.map Prod.snd).filterMap Delivery.append := by
  rw [List.filterMap_map]
  rfl

theorem Delivers.inOrder (h : n.Delivers) (hst : st ∈ n.streams) : n.InOrder st := by
  obtain ⟨lost, hfed⟩ := h.fed st hst
  have hreceived : st.received <+: n.sentOn st.channel st.sentBefore := by
    have hsent := hfed.prefix_sent
    rw [List.append_assoc] at hsent
    exact (List.prefix_append _ _).trans hsent
  refine ⟨hfed.opened, hfed.before, hreceived, fun hopen hlagged => ?_, ?_, ?_⟩
  · have hcurrent := hfed.current hopen
    rwa [hfed.kept hlagged, List.append_nil] at hcurrent
  · have hsub := (hreceived.sublist.trans
      (sentOn_sublist n st.channel st.sentBefore)).filterMap Delivery.append
    rw [← sentAppends_eq] at hsub
    exact hsub.nodup h.broadcast.nodup
  · rw [← hfed.reported]
    exact List.prefix_append _ _

/-- **Streams get what is sent on their channels**, in that order, without gaps and
nothing twice, as long as they do not lag. -/
theorem streams_in_order (partitionId totalPartitions : UInt32) (recovered : String → Log)
    (labels : List NodeLabel) :
    Always step (fun n => ∀ st ∈ n.streams, n.InOrder st)
      (start partitionId totalPartitions recovered) labels :=
  (delivers_always partitionId totalPartitions recovered labels).mono
    fun _ h _ hst => h.inOrder hst

/-! ### Exactly once -/

/-- Every message stored since an open stream was opened is on its way to the stream
once: a task is still to send it, it waits in the buffer, or it has been received. -/
def DeliveredOnce (n : Node) : Prop :=
  ∀ st ∈ n.streams, st.isOpen = true → st.lagged = false →
    ∀ a, st.openedAt ≤ a → a < n.stored.length →
      n.heldAppends.count a + (st.buffer.filterMap Delivery.append).count a +
        (st.received.filterMap Delivery.append).count a = 1

theorem count_filterMap_filter {α : Type*} {f : α → Option Nat} {p : α → Bool} {l : List α} {a : Nat}
    (h : ∀ x ∈ l, f x = some a → p x = true) :
    ((l.filter p).filterMap f).count a = (l.filterMap f).count a := by
  induction l with
  | nil => rfl
  | cons x l ih =>
      have hrest := ih fun y hy => h y (List.mem_cons_of_mem x hy)
      by_cases hp : p x = true
      · rw [List.filter_cons_of_pos hp, List.filterMap_cons, List.filterMap_cons]
        cases f x with
        | none => exact hrest
        | some b => rw [List.count_cons, List.count_cons, hrest]
      · -- what is left out is something else
        rw [List.filter_cons_of_neg hp, List.filterMap_cons, hrest]
        cases hfx : f x with
        | none => rfl
        | some b =>
            have hne : b ≠ a := by
              rintro rfl
              exact hp (h x List.mem_cons_self hfx)
            rw [List.count_cons_of_ne hne]

/-- What was sent of the messages stored since a stream was opened was sent on the
channel of the stream. -/
theorem Attached.count_sentOn (hattached : n.Attached) (hst : st ∈ n.streams)
    (hopen : st.isOpen = true) {k : Nat}
    (hbefore : ∀ d ∈ n.deliveries.take k, ∀ a, d.2.append = some a → a < st.openedAt)
    {a : Nat} (ha : st.openedAt ≤ a) :
    ((n.sentOn st.channel k).filterMap Delivery.append).count a = n.sentAppends.count a := by
  have hchannel : ∀ d ∈ n.deliveries.drop k, d.2.append = some a →
      decide (d.1.id = st.channel) = true := by
    intro d hd hda
    exact decide_eq_true
      (hattached.sent st hst hopen d.1 d.2 a (List.mem_of_mem_drop hd) hda ha)
  have hnone : ((n.deliveries.take k).filterMap fun d => d.2.append).count a = 0 := by
    apply List.count_eq_zero.mpr
    intro hmem
    obtain ⟨d, hd, hda⟩ := List.mem_filterMap.mp hmem
    exact absurd (hbefore d hd a hda) (Nat.not_lt.mpr ha)
  have hsplit : n.sentAppends = ((n.deliveries.take k).filterMap fun d => d.2.append) ++
      (n.deliveries.drop k).filterMap fun d => d.2.append := by
    rw [← List.filterMap_append, List.take_append_drop]
    rfl
  rw [hsplit, List.count_append, hnone, Nat.zero_add, ← count_filterMap_filter hchannel, sentOn,
    List.filterMap_map]
  rfl

theorem Delivers.deliveredOnce (h : n.Delivers) (hattached : n.Attached) : n.DeliveredOnce := by
  intro st hst hopen hlagged a ha hstored
  obtain ⟨lost, hfed⟩ := h.fed st hst
  have hcurrent := hfed.current hopen
  rw [hfed.kept hlagged, List.append_nil] at hcurrent
  have hcount := hattached.count_sentOn hst hopen hfed.before ha
  rw [← hcurrent, List.filterMap_append, List.count_append] at hcount
  have honce := h.broadcast.once a
  rw [if_pos hstored] at honce
  omega

/-- **Messages reach a stream exactly once**: in a run in which no channel is replaced
while a task has a sender of it in its hands, every message that is stored since a
stream was opened is still to be sent, or the stream has got it, and only once. -/
theorem delivered_once (partitionId totalPartitions : UInt32) (recovered : String → Log)
    (labels : List NodeLabel)
    (hkeeps : Along step (fun n label => n.keepsSenders label = true)
      (start partitionId totalPartitions recovered) labels) :
    Always step DeliveredOnce (start partitionId totalPartitions recovered) labels := by
  have hboth : Always step (fun n => n.Delivers ∧ n.Wired)
      (start partitionId totalPartitions recovered) labels :=
    Always.of_along
      ⟨delivers_start partitionId totalPartitions recovered,
        wired_start partitionId totalPartitions recovered⟩
      hkeeps fun n label h hlabel => ⟨h.1.step label, h.2.step label hlabel⟩
  exact hboth.mono fun n h => h.1.deliveredOnce h.2.attached

/-- A consumer opens a stream, and then a message is forwarded to the broker. -/
theorem delivered_once_consumeThenForward :
    Always step DeliveredOnce (start 0 1 fun _ => []) consumeThenForward ∧
      (consumeThenForward.foldl step (start 0 1 fun _ => [])).streams.map
        (fun st => (st.openedAt, st.buffer.filterMap Delivery.append)) = [(0, [0])] :=
  ⟨delivered_once 0 1 (fun _ => []) consumeThenForward (by decide), by decide⟩

end Node

end Rafka
