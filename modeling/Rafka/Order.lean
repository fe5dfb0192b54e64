/-
Rafka/Order.lean

The order of the log and the order of publishing (`Broker::publish` and
`Broker::serve` in `crates/broker/src/broker.rs`).

Requests leave the batcher in the order in which they came, but whoever pops a
batch hands it to the storage later, at its own pace.  So a request may be
popped first and stored last, although its `publish` returned before the other
one was called.

`TimedState` adds to a `PublishState` which calls had returned when a call was
made.  Main result (`ordered_of_inTurn`): in a run in which nobody hands a
request to the storage while somebody else holds an earlier one of the same
topic, the offsets of a topic follow the order of the calls.

As in `Rafka.Publish`, `append` is one step that returns, the files of the
partitions can be recovered, and a handler runs to its end.
-/
import Rafka.Drainage
import Rafka.Publish

namespace Rafka

/-! ### The order of calls -/

/-- `publish` has returned. -/
def HandlerPhase.isReturned : HandlerPhase → Bool
  | .acknowledged | .failed => true
  | _ => false

namespace PublishState

/-- The calls that have returned. -/
def returned (s : PublishState) : List Nat :=
  (List.range s.handlers.length).filter fun i =>
    s.handlers[i]?.any fun h => h.phase.isReturned

/-- What the handlers and the flusher (`none`) hold in popped batches. -/
def held (s : PublishState) : Option Nat → List Tagged
  | none => s.flusher.inProcess
  | some i =>
      match s.handlers[i]? with
      | some h => h.inProcess
      | none => []

/-- The handlers and the flusher. -/
def drainers (s : PublishState) : List (Option Nat) :=
  none :: (List.range s.handlers.length).map some

/-- The step hands a request to the storage: who does it, and which one. -/
def hands (s : PublishState) : PublishLabel → Option (Option Nat × Tagged)
  | .publish _ => none
  | .handler i _ =>
      match s.handlers[i]? with
      | some ⟨_, .processing ⟨some (.loop _ ((t, _) :: _) _), _⟩⟩ => some (some i, t)
      | _ => none
  | .flusher _ =>
      match s.flusher with
      | ⟨some (.loop _ ((t, _) :: _) _), _⟩ => some (none, t)
      | _ => none

/-- The request has the offset `offset` in the log of its topic. -/
def StoredAt (s : PublishState) (t : Tagged) (offset : Nat) : Prop :=
  ∃ k, (s.persisted.filter fun u => u.req.topic = t.req.topic)[k]? = some t ∧
    offset = (s.recovered t.req.topic).length + k

end PublishState

/-- A broker, and for every call of `publish` the calls that had returned
before it was made. -/
structure TimedState where
  state : PublishState
  earlier : List (List Nat)

namespace TimedState

/-- The call of `t` had returned before that of `t'` was made. -/
def precedes (earlier : List (List Nat)) (t t' : Tagged) : Bool :=
  (earlier[t'.tag]?.getD []).contains t.tag

/-- One step of the system. -/
def step (s : TimedState) (label : PublishLabel) : TimedState where
  state := s.state.step label
  earlier :=
    match label with
    | .publish _ => s.earlier ++ [s.state.returned]
    | .handler _ _ | .flusher _ => s.earlier

/-- A broker as `Broker::new` makes it. -/
def start (partitionId totalPartitions : UInt32) (recovered : String → Log) : TimedState where
  state := PublishState.start partitionId totalPartitions recovered
  earlier := []

/-- The logs hold the requests handed to the storage, and their offsets follow
the order of the calls. -/
structure Ordered (s : TimedState) : Prop where
  logged : ∀ topic ∈ s.state.topics, s.state.broker.storage.log? topic s.state.broker.partition =
    some (s.state.recovered topic ++ PublishState.payloadsTo topic s.state.persisted)
  stored : ∀ t ∈ s.state.persisted, t.req.topic ∈ s.state.topics
  offsets : ∀ t t' offset offset', precedes s.earlier t t' = true →
    t.req.topic = t'.req.topic → s.state.StoredAt t offset → s.state.StoredAt t' offset' →
    offset < offset'

/-- If the step hands a request to the storage, nobody else holds one of the
same topic whose call had returned before that of the request was made. -/
def inTurn (s : TimedState) (label : PublishLabel) : Bool :=
  match s.state.hands label with
  | none => true
  | some (d, t) =>
      s.state.drainers.all fun d' =>
        d' = d || (s.state.held d').all fun t' =>
          t'.req.topic ≠ t.req.topic || !precedes s.earlier t' t

end TimedState

/-! ### Popped batches -/

namespace Work

/-- What one operation on popped batches does: it hands the first request to the
storage, or it hands over none and may drop some. -/
structure Drains (b : Broker) (w : Work) (r : Work × Broker × List Tagged) : Prop where
  requests : (r.2.2 = [] ∧ r.1.inProcess.Sublist w.inProcess) ∨
    ∃ t sender payload todo rest, r.2.2 = [t] ∧
      w.current = some (.loop sender ((t, payload) :: todo) rest) ∧
      w.inProcess = t :: r.1.inProcess
  storage : r.2.1.storage = storeAll b.partition b.storage r.2.2
  partitionId : r.2.1.partitionId = b.partitionId

/-- The loop has at most one turn; the rest of the batch is not reached. -/
theorem inProcess_framed {messages : List Tagged} {processed : List (List UInt8)}
    (h : processed.length ≤ 1) :
    (messages.zip processed).map Prod.fst ++ messages.drop processed.length = messages := by
  cases processed with
  | nil => simp
  | cons payload processed =>
      have hnil : processed = [] := by
        cases processed with
        | nil => rfl
        | cons _ _ => simp at h
      subst hnil
      cases messages with
      | nil => rfl
      | cons t messages => simp

/-- **Step lemma for popped batches.** -/
theorem drains_step {channel : Broker → Channel × Broker} (hch : Broker.ChannelFrame channel)
    (fresh : Fresh) (b : Broker) (w : Work) : Drains b w (w.step channel fresh b) := by
  obtain ⟨current, queue⟩ := w
  match current with
  | none =>
      cases queue with
      | nil => exact ⟨.inl ⟨rfl, List.Sublist.refl _⟩, rfl, rfl⟩
      | cons messages queue =>
          simp only [Work.step]
          split
          · refine ⟨.inl ⟨rfl, ?_⟩, rfl, rfl⟩
            simp [inProcess]
          · refine ⟨.inl ⟨rfl, ?_⟩, rfl, rfl⟩
            simp [inProcess]
  | some (.framing messages call) =>
      simp only [Work.step]
      split
      · exact ⟨.inl ⟨rfl, List.Sublist.refl _⟩, rfl, rfl⟩
      · rename_i result hreturned
        have hone : (Broker.resultIter result).length ≤ 1 := by
          cases result <;> simp [Broker.resultIter]
        refine ⟨.inl ⟨rfl, ?_⟩, hch.storage b, hch.partitionId b⟩
        simp only [inProcess, inProcess_framed hone]
        exact List.Sublist.refl _
  | some (.loop sender [] rest) =>
      refine ⟨.inl ⟨rfl, ?_⟩, rfl, rfl⟩
      simp [Work.step, inProcess]
  | some (.loop sender ((t, payload) :: todo) rest) =>
      obtain ⟨hstorage, hid, -⟩ := processNext_frame sender b fresh t.req payload
      exact ⟨.inr ⟨t, sender, payload, todo, rest, rfl, rfl, rfl⟩, hstorage, hid⟩

end Work

/-! ### The calls -/

namespace TimedState

open PublishState

/-- Every call hands its request on once, when its topic exists, and those that
had returned before another one was made have still returned. -/
structure Calls (topics : Finset String) (added : List Tagged) (handlers : List Handler)
    (earlier : List (List Nat)) : Prop where
  own : ∀ (i : Nat) (h : Handler), handlers[i]? = some h →
    (⟨i, h.req⟩ ∈ added ↔ hasAdded h.phase = true)
  known : ∀ t ∈ added, t.tag < handlers.length
  onTopic : ∀ t ∈ added, t.req.topic ∈ topics
  ensured : ∀ (i : Nat) (h : Handler), handlers[i]? = some h → h.phase = .addMessage →
    h.req.topic ∈ topics
  length : earlier.length = handlers.length
  returned : ∀ (j : Nat) (calls : List Nat), earlier[j]? = some calls → ∀ i ∈ calls,
    ∃ h, handlers[i]? = some h ∧ h.phase.isReturned = true

variable {topics : Finset String} {added : List Tagged} {handlers : List Handler}
variable {earlier : List (List Nat)} {i : Nat} {h : Handler} {phase : HandlerPhase}

/-- A call that has not returned moves on. -/
theorem returned_set (hret : ∀ (j : Nat) (calls : List Nat), earlier[j]? = some calls →
      ∀ i ∈ calls, ∃ h, handlers[i]? = some h ∧ h.phase.isReturned = true)
    (hi : handlers[i]? = some h) (hphase : h.phase.isReturned = false)
    {j : Nat} {calls : List Nat} (hj : earlier[j]? = some calls) {k : Nat} (hk : k ∈ calls) :
    ∃ h', (handlers.set i { h with phase := phase })[k]? = some h' ∧
      h'.phase.isReturned = true := by
  obtain ⟨h', hh', hreturned⟩ := hret j calls hj k hk
  have hne : i ≠ k := by
    rintro rfl
    rw [hi] at hh'
    cases hh'
    rw [hphase] at hreturned
    cases hreturned
  exact ⟨h', by rw [List.getElem?_set_ne hne, hh'], hreturned⟩

theorem Calls.set (hcalls : Calls topics added handlers earlier) (hi : handlers[i]? = some h)
    (hphase : h.phase.isReturned = false) (hadded : hasAdded phase = hasAdded h.phase)
    (hensured : phase = .addMessage → h.req.topic ∈ topics) :
    Calls topics added (handlers.set i { h with phase := phase }) earlier where
  own j h' hj := by
    rcases getElem?_set_cases hj with ⟨rfl, rfl⟩ | ⟨-, hold⟩
    · rw [hcalls.own j h hi, hadded]
    · exact hcalls.own j h' hold
  known t ht := by
    rw [List.length_set]
    exact hcalls.known t ht
  onTopic := hcalls.onTopic
  ensured j h' hj haddMessage := by
    rcases getElem?_set_cases hj with ⟨-, rfl⟩ | ⟨-, hold⟩
    · exact hensured haddMessage
    · exact hcalls.ensured j h' hold haddMessage
  length := by rw [List.length_set, hcalls.length]
  returned _ _ hj _ hk := returned_set hcalls.returned hi hphase hj hk

theorem Calls.add (hcalls : Calls topics added handlers earlier) (hi : handlers[i]? = some h)
    (hphase : h.phase = .addMessage) :
    Calls topics (added ++ [⟨i, h.req⟩])
      (handlers.set i { h with phase := .getReadyBatches }) earlier where
  own j h' hj := by
    rcases getElem?_set_cases hj with ⟨rfl, rfl⟩ | ⟨hne, hold⟩
    · exact iff_of_true (by simp) rfl
    · -- requests of different handlers differ in their tags
      have hother : (⟨j, h'.req⟩ : Tagged) ≠ ⟨i, h.req⟩ :=
        fun heq => hne (congrArg Tagged.tag heq)
      rw [List.mem_append, List.mem_singleton, or_iff_left hother]
      exact hcalls.own j h' hold
  known t ht := by
    rw [List.length_set]
    rcases List.mem_append.mp ht with hold | hnew
    · exact hcalls.known t hold
    · rw [List.mem_singleton.mp hnew]
      exact (List.getElem?_eq_some_iff.mp hi).1
  onTopic t ht := by
    rcases List.mem_append.mp ht with hold | hnew
    · exact hcalls.onTopic t hold
    · rw [List.mem_singleton.mp hnew]
      exact hcalls.ensured i h hi hphase
  ensured j h' hj haddMessage := by
    rcases getElem?_set_cases hj with ⟨-, rfl⟩ | ⟨-, hold⟩
    · cases haddMessage
    · exact hcalls.ensured j h' hold haddMessage
  length := by rw [List.length_set, hcalls.length]
  returned _ _ hj _ hk := returned_set hcalls.returned hi (by rw [hphase]; rfl) hj hk

theorem Calls.push (hcalls : Calls topics added handlers earlier) (req : PublishRequest)
    (hphase : phase = .ensureTopic ∨ phase = .forwarded) {calls : List Nat}
    (hret : ∀ i ∈ calls, ∃ h, handlers[i]? = some h ∧ h.phase.isReturned = true) :
    Calls topics added (handlers ++ [⟨req, phase⟩]) (earlier ++ [calls]) where
  own j h' hj := by
    rcases getElem?_concat_cases hj with hold | ⟨rfl, rfl⟩
    · exact hcalls.own j h' hold
    · -- the new number is not in use yet
      have hnone : (⟨handlers.length, req⟩ : Tagged) ∉ added :=
        fun hmem => Nat.lt_irrefl _ (hcalls.known _ hmem)
      rcases hphase with rfl | rfl <;> exact iff_of_false hnone Bool.false_ne_true
  known t ht := by
    have hlt := hcalls.known t ht
    rw [List.length_append]
    omega
  onTopic := hcalls.onTopic
  ensured j h' hj haddMessage := by
    rcases getElem?_concat_cases hj with hold | ⟨-, rfl⟩
    · exact hcalls.ensured j h' hold haddMessage
    · rcases hphase with rfl | rfl <;> cases haddMessage
  length := by simp [hcalls.length]
  returned j calls' hj k hk := by
    have hold : ∃ h, handlers[k]? = some h ∧ h.phase.isReturned = true := by
      rcases getElem?_concat_cases hj with hj | ⟨-, rfl⟩
      · exact hcalls.returned j calls' hj k hk
      · exact hret k hk
    obtain ⟨h, hh, hreturned⟩ := hold
    exact ⟨h, by rw [List.getElem?_append_left (List.getElem?_eq_some_iff.mp hh).1, hh],
      hreturned⟩

theorem Calls.mono (hcalls : Calls topics added handlers earlier) {topics' : Finset String}
    (hsub : topics ⊆ topics') : Calls topics' added handlers earlier where
  own := hcalls.own
  known := hcalls.known
  onTopic t ht := hsub (hcalls.onTopic t ht)
  ensured i h hi hphase := hsub (hcalls.ensured i h hi hphase)
  length := hcalls.length
  returned := hcalls.returned

/-- A call that has not returned precedes no other one. -/
theorem Calls.not_precedes (hcalls : Calls topics added handlers earlier)
    (hi : handlers[i]? = some h) (hphase : h.phase.isReturned = false) (t : Tagged) :
    precedes earlier ⟨i, h.req⟩ t = false := by
  rw [Bool.eq_false_iff]
  intro hprec
  simp only [precedes, List.contains_iff_mem] at hprec
  cases hj : earlier[t.tag]? with
  | none => simp [hj] at hprec
  | some calls =>
      rw [hj, Option.getD_some] at hprec
      obtain ⟨h', hh', hreturned⟩ := hcalls.returned t.tag calls hj i hprec
      rw [hi] at hh'
      cases hh'
      rw [hphase] at hreturned
      cases hreturned

theorem mem_returned {s : PublishState} {i : Nat} (hi : i ∈ s.returned) :
    ∃ h, s.handlers[i]? = some h ∧ h.phase.isReturned = true := by
  rw [PublishState.returned, List.mem_filter] at hi
  exact (Option.any_eq_true _ _).mp hi.2

/-! ### The invariant -/

/-- The requests are of one topic. -/
def SameTopic (t t' : Tagged) : Prop := t.req.topic = t'.req.topic

/-- The batcher and those who empty it. -/
def queues (s : PublishState) : Drainage Tagged (Option Nat) where
  added := s.added
  pending := s.batcher.pending
  held := s.held
  stored := s.persisted

/-- Nothing is stored behind a later request of its topic, and the logs hold what
was stored. -/
structure Inv (s : TimedState) : Prop where
  calls : Calls s.state.topics s.state.added s.state.handlers s.earlier
  inOrder : (queues s.state).InOrder SameTopic fun t t' => precedes s.earlier t t' = true
  logged : Logged s.state.broker.storage s.state.broker.partition s.state.topics
    s.state.recovered s.state.persisted
  room : 0 < s.state.batcher.batchSize

variable {s : TimedState}

/-- The invariant gives what is to hold. -/
theorem Inv.ordered (hinv : s.Inv) : s.Ordered := by
  have hmem : ∀ t ∈ s.state.persisted, t ∈ s.state.added := hinv.inOrder.mem_stored
  refine ⟨hinv.logged, fun t ht => hinv.calls.onTopic t (hmem t ht), ?_⟩
  rintro t t' - - hprec htopic ⟨k, hk, rfl⟩ ⟨k', hk', rfl⟩
  rw [htopic] at hk ⊢
  obtain ⟨hlt, hget⟩ := List.getElem?_eq_some_iff.mp hk
  obtain ⟨hlt', hget'⟩ := List.getElem?_eq_some_iff.mp hk'
  have ht : t ∈ s.state.added := hmem t (List.mem_filter.mp (List.mem_of_getElem? hk)).1
  have ht' : t' ∈ s.state.added := hmem t' (List.mem_filter.mp (List.mem_of_getElem? hk')).1
  have hbefore : Drainage.Before s.state.added t t' := hinv.inOrder.respects t ht t' ht' hprec
  rcases Nat.lt_trichotomy k k' with hless | heq | hmore
  · omega
  · -- a request does not come before itself
    subst heq
    rw [hget] at hget'
    subst hget'
    exact absurd hbefore (hbefore.asymm hinv.inOrder.nodup)
  · have hstored : s.state.persisted.Pairwise fun a b =>
        SameTopic a b → ¬ precedes s.earlier b a = true := hinv.inOrder.stored
    have hsorted := hstored.sublist
      (List.filter_sublist (p := fun u => decide (u.req.topic = t'.req.topic)))
    have hpair := List.pairwise_iff_getElem.mp hsorted k' k hlt' hlt hmore
    rw [hget, hget'] at hpair
    exact absurd hprec (hpair htopic.symm)

/-! ### Steps of the system -/

theorem held_setPhase {s : PublishState} (hi : s.handlers[i]? = some h)
    (phase : HandlerPhase) :
    (s.setPhase i h phase).held =
      Function.update s.held (some i) (Handler.inProcess ⟨h.req, phase⟩) := by
  funext d
  cases d with
  | none => rfl
  | some j =>
      by_cases hj : j = i
      · subst hj
        have hlt := (List.getElem?_eq_some_iff.mp hi).1
        simp [held, PublishState.setPhase, List.getElem?_set_self hlt]
      · have hne : (some j : Option Nat) ≠ some i := fun heq => hj (Option.some.inj heq)
        rw [Function.update_of_ne hne]
        simp only [held, PublishState.setPhase, List.getElem?_set_ne (Ne.symm hj)]

theorem held_some {s : PublishState} (hi : s.handlers[i]? = some h) :
    s.held (some i) = h.inProcess := by
  rw [held, hi]

/-- A handler moves without moving requests. -/
theorem Inv.setPhase (hinv : s.Inv) (hi : s.state.handlers[i]? = some h)
    (hphase : h.phase.isReturned = false) (hadded : hasAdded phase = hasAdded h.phase)
    (hensured : phase = .addMessage → h.req.topic ∈ s.state.topics)
    (hsame : Handler.inProcess ⟨h.req, phase⟩ = h.inProcess) :
    Inv ⟨s.state.setPhase i h phase, s.earlier⟩ := by
  have hheld : (s.state.setPhase i h phase).held = s.state.held := by
    rw [held_setPhase hi, hsame, ← held_some hi, Function.update_eq_self]
  have hqueues : queues (s.state.setPhase i h phase) = queues s.state := by
    rw [queues, hheld]
    rfl
  refine ⟨hinv.calls.set hi hphase hadded hensured, ?_, hinv.logged, hinv.room⟩
  rw [hqueues]
  exact hinv.inOrder

theorem Inv.ensureTopic (hinv : s.Inv) (topic : String) :
    Inv ⟨s.state.ensureTopic topic, s.earlier⟩ ∧
      (s.state.ensureTopic topic).handlers = s.state.handlers ∧
      topic ∈ (s.state.ensureTopic topic).topics := by
  unfold PublishState.ensureTopic
  split_ifs with hmem
  · exact ⟨hinv, rfl, hmem⟩
  · have hsub : s.state.topics ⊆ insert topic s.state.topics :=
      Finset.subset_insert topic s.state.topics
    have hstored : ∀ t ∈ s.state.persisted, t.req.topic ∈ s.state.topics :=
      fun t ht => hinv.calls.onTopic t (hinv.inOrder.mem_stored t ht)
    refine ⟨?_, rfl, Finset.mem_insert_self topic s.state.topics⟩
    exact ⟨hinv.calls.mono hsub, hinv.inOrder, hinv.logged.insert hstored hmem, hinv.room⟩

/-- A handler puts its request into the batcher. -/
theorem Inv.addMessage (hinv : s.Inv) {req : PublishRequest}
    (hi : s.state.handlers[i]? = some ⟨req, .addMessage⟩) (env : StepEnv) :
    Inv ⟨s.state.stepHandler i ⟨req, .addMessage⟩ env, s.earlier⟩ := by
  -- the batcher takes every message, so the fallback is never taken
  obtain ⟨batcher, hadd⟩ := s.state.batcher.addMessage_isOk ⟨i, req⟩ (env.now 0)
  have hpending := BatchedProcessor.pending_addMessage hinv.room hadd
  simp only [PublishState.stepHandler, hadd]
  have hnew : (⟨i, req⟩ : Tagged) ∉ s.state.added := by
    rw [hinv.calls.own i _ hi]
    exact Bool.false_ne_true
  have hqueues : queues (PublishState.setPhase
      { s.state with batcher := batcher, added := s.state.added ++ [⟨i, req⟩] } i
        ⟨req, .addMessage⟩ .getReadyBatches) =
      { queues s.state with
        added := s.state.added ++ [⟨i, req⟩]
        pending := s.state.batcher.pending ++ [⟨i, req⟩] } := by
    have hheld : (s.state.setPhase i ⟨req, .addMessage⟩ .getReadyBatches).held =
        s.state.held := by
      rw [held_setPhase hi]
      show Function.update s.state.held (some i) (Handler.inProcess ⟨req, .addMessage⟩) = _
      rw [← held_some hi, Function.update_eq_self]
    show Drainage.mk _ batcher.pending
      (s.state.setPhase i ⟨req, .addMessage⟩ .getReadyBatches).held _ = _
    rw [hheld, hpending]
    rfl
  refine ⟨hinv.calls.add hi rfl, ?_, hinv.logged, ?_⟩
  · rw [hqueues]
    apply hinv.inOrder.add hnew
    intro t _
    rw [hinv.calls.not_precedes hi rfl t]
    exact Bool.false_ne_true
  · exact (BatchedProcessor.batchSize_addMessage hadd).symm ▸ hinv.room

/-- The popped batches come from the front of the batcher. -/
theorem popped_append_pending (p : BatchedProcessor Tagged) (now : Nat → Instant) :
    Work.inProcess ⟨none, (p.getReadyBatches now).1.map MessageBatch.messages⟩ ++
      (p.getReadyBatches now).2.pending = p.pending := by
  have hsplit := BatchedProcessor.flatMap_getReadyBatches p now
  rw [List.flatMap_def] at hsplit
  exact hsplit

/-- A drainer pops the ready batches. -/
theorem Inv.inOrder_pop (hinv : s.Inv) (d : Option Nat) (now : Nat → Instant) :
    ((queues s.state).hand d
      (Work.inProcess ⟨none, (s.state.batcher.getReadyBatches now).1.map MessageBatch.messages⟩)
      (s.state.batcher.getReadyBatches now).2.pending).InOrder SameTopic
        fun t t' => precedes s.earlier t t' = true := by
  have hsplit := popped_append_pending s.state.batcher now
  refine hinv.inOrder.hand ?_ ?_
  · rw [hsplit]
    exact List.sublist_append_right _ _
  · show List.Sublist _ s.state.batcher.pending
    rw [← hsplit]
    exact List.sublist_append_right _ _

theorem mem_drainers {s : PublishState} {d : Option Nat} {t : Tagged} (ht : t ∈ s.held d) :
    d ∈ s.drainers := by
  cases d with
  | none => exact List.mem_cons_self
  | some j =>
      have hj : j < s.handlers.length := by
        by_contra hge
        rw [held, List.getElem?_eq_none (Nat.le_of_not_lt hge)] at ht
        cases ht
      exact List.mem_cons_of_mem _ (List.mem_map_of_mem (List.mem_range.mpr hj))

/-- What a step in turn finds in the hands of the others. -/
theorem not_precedes_of_inTurn {label : PublishLabel} {d : Option Nat} {t : Tagged}
    (hturn : s.inTurn label = true) (hhands : s.state.hands label = some (d, t)) :
    ∀ d', d' ≠ d → ∀ t' ∈ s.state.held d', SameTopic t t' →
      ¬ precedes s.earlier t' t = true := by
  intro d' hd' t' ht' hsame
  simp only [inTurn, hhands, List.all_eq_true] at hturn
  have hothers := hturn d' (mem_drainers ht')
  simp only [hd', decide_false, Bool.false_or, List.all_eq_true] at hothers
  have hone := hothers t' ht'
  have htopic : t'.req.topic = t.req.topic := hsame.symm
  simpa [htopic] using hone

/-- A drainer works on its batches. -/
theorem Inv.inOrder_drain (hinv : s.Inv) {d : Option Nat} {w : Work}
    {r : Work × Broker × List Tagged} (hd : s.state.held d = w.inProcess)
    (hdrains : Work.Drains s.state.broker w r) {label : PublishLabel}
    (hturn : s.inTurn label = true)
    (hhands : ∀ t sender payload todo rest,
      w.current = some (.loop sender ((t, payload) :: todo) rest) →
      s.state.hands label = some (d, t)) :
    Drainage.InOrder SameTopic (fun t t' => precedes s.earlier t t' = true)
      { (queues s.state).hand d r.1.inProcess s.state.batcher.pending with
        stored := s.state.persisted ++ r.2.2 } := by
  rcases hdrains.requests with ⟨hnone, hsub⟩ | ⟨t, sender, payload, todo, rest, hone, hcur, hheld⟩
  · rw [hnone, List.append_nil]
    refine hinv.inOrder.hand ?_ (List.Sublist.refl _)
    show List.Sublist _ (s.state.held d ++ _)
    rw [hd]
    exact hsub.append (List.Sublist.refl _)
  · rw [hone]
    have hlabel := hhands t sender payload todo rest hcur
    exact hinv.inOrder.store (hd.trans hheld) (not_precedes_of_inTurn hturn hlabel)

theorem Inv.logged_of_drains (hinv : s.Inv) {w : Work} {r : Work × Broker × List Tagged}
    (hdrains : Work.Drains s.state.broker w r) :
    Logged r.2.1.storage r.2.1.partition s.state.topics s.state.recovered
      (s.state.persisted ++ r.2.2) := by
  have hpartition : r.2.1.partition = s.state.broker.partition := by
    rw [Broker.partition, Broker.partition, hdrains.partitionId]
  rw [hpartition, hdrains.storage]
  exact hinv.logged.storeAll r.2.2

/-- A handler pops the ready batches. -/
theorem Inv.getReadyBatches (hinv : s.Inv) {req : PublishRequest}
    (hi : s.state.handlers[i]? = some ⟨req, .getReadyBatches⟩) (env : StepEnv) :
    Inv ⟨s.state.stepHandler i ⟨req, .getReadyBatches⟩ env, s.earlier⟩ := by
  refine ⟨hinv.calls.set hi rfl rfl (by rintro ⟨⟩), ?_, hinv.logged, hinv.room⟩
  have hpop := hinv.inOrder_pop (some i) env.now
  rw [Drainage.hand] at hpop
  show Drainage.InOrder _ _ (Drainage.mk _ _ (s.state.setPhase i _ _).held _)
  rw [held_setPhase hi]
  exact hpop

/-- A handler works on its batches. -/
theorem Inv.processing (hinv : s.Inv) {req : PublishRequest} {work : Work}
    (hi : s.state.handlers[i]? = some ⟨req, .processing work⟩) {env : StepEnv}
    (hturn : s.inTurn (.handler i env) = true) :
    Inv ⟨s.state.stepHandler i ⟨req, .processing work⟩ env, s.earlier⟩ := by
  by_cases hdone : work.isDone = true
  · simp only [PublishState.stepHandler, if_pos hdone]
    exact hinv.setPhase hi rfl rfl (by rintro ⟨⟩) (Work.inProcess_of_isDone hdone).symm
  · have hdrains := Work.drains_step Broker.ensureChannel_frame env.fresh s.state.broker work
    simp only [PublishState.stepHandler, if_neg hdone]
    generalize work.step Broker.ensureChannel env.fresh s.state.broker = r at hdrains
    have hhands : ∀ t sender payload todo rest,
        work.current = some (.loop sender ((t, payload) :: todo) rest) →
        s.state.hands (.handler i env) = some (some i, t) := by
      intro t sender payload todo rest hcur
      obtain ⟨current, queue⟩ := work
      subst hcur
      simp only [hands, hi]
    have hdrain := hinv.inOrder_drain (held_some hi) hdrains hturn hhands
    refine ⟨hinv.calls.set hi rfl rfl (by rintro ⟨⟩), ?_, hinv.logged_of_drains hdrains,
      hinv.room⟩
    rw [Drainage.hand] at hdrain
    show Drainage.InOrder _ _ (Drainage.mk _ _ (s.state.setPhase i _ _).held _)
    rw [held_setPhase hi]
    exact hdrain

/-- **Step lemma for the handlers.** -/
theorem Inv.stepHandler (hinv : s.Inv) (hi : s.state.handlers[i]? = some h) {env : StepEnv}
    (hturn : s.inTurn (.handler i env) = true) :
    Inv ⟨s.state.stepHandler i h env, s.earlier⟩ := by
  obtain ⟨req, phase⟩ := h
  cases phase with
  | forwarded => exact hinv
  | acknowledged => exact hinv
  | failed => exact hinv
  | ensureTopic =>
      obtain ⟨hinv', hhandlers, hmem⟩ := hinv.ensureTopic req.topic
      rw [← hhandlers] at hi
      exact hinv'.setPhase hi rfl rfl (fun _ => hmem) rfl
  | addMessage => exact hinv.addMessage hi env
  | getReadyBatches => exact hinv.getReadyBatches hi env
  | processing work => exact hinv.processing hi hturn
  | respond =>
      -- the response only takes a number from the message counter
      have hinv' : Inv ⟨{ s.state with
          broker := { s.state.broker with
            messageCounter := s.state.broker.messageCounter + 1 } }, s.earlier⟩ :=
        ⟨hinv.calls, hinv.inOrder, hinv.logged, hinv.room⟩
      exact hinv'.setPhase hi rfl rfl (by rintro ⟨⟩) rfl

/-- What the flusher holds is not part of the handlers. -/
theorem held_flusher (s : PublishState) (w : Work) :
    PublishState.held { s with flusher := w } = Function.update s.held none w.inProcess := by
  funext d
  cases d with
  | none => rfl
  | some j => rfl

/-- **Step lemma for the flusher.** -/
theorem Inv.stepFlusher (hinv : s.Inv) {env : StepEnv}
    (hturn : s.inTurn (.flusher env) = true) :
    Inv ⟨s.state.stepFlusher env, s.earlier⟩ := by
  by_cases hdone : s.state.flusher.isDone = true
  · have hpop := hinv.inOrder_pop none env.now
    simp only [PublishState.stepFlusher, if_pos hdone]
    refine ⟨hinv.calls, ?_, hinv.logged, hinv.room⟩
    rw [Drainage.hand] at hpop
    show Drainage.InOrder _ _ (Drainage.mk _ _ (PublishState.held { s.state with flusher := _ }) _)
    rw [held_flusher]
    exact hpop
  · have hdrains := Work.drains_step Broker.flusherChannel_frame env.fresh s.state.broker
      s.state.flusher
    simp only [PublishState.stepFlusher, if_neg hdone]
    generalize s.state.flusher.step Broker.flusherChannel env.fresh s.state.broker = r at hdrains
    have hhands : ∀ t sender payload todo rest,
        s.state.flusher.current = some (.loop sender ((t, payload) :: todo) rest) →
        s.state.hands (.flusher env) = some (none, t) := by
      intro t sender payload todo rest hcur
      simp only [hands]
      split
      · rename_i hflusher
        rw [hflusher] at hcur
        cases hcur
        rfl
      · rename_i hother
        exact absurd (show s.state.flusher = ⟨_, s.state.flusher.queue⟩ by rw [← hcur])
          (hother _ _ _ _ _ _)
    have hdrain := hinv.inOrder_drain (d := none) rfl hdrains hturn hhands
    refine ⟨hinv.calls, ?_, hinv.logged_of_drains hdrains, hinv.room⟩
    rw [Drainage.hand] at hdrain
    show Drainage.InOrder _ _ (Drainage.mk _ _ (PublishState.held { s.state with flusher := _ }) _)
    rw [held_flusher]
    exact hdrain

/-- A new call. -/
theorem Inv.publish (hinv : s.Inv) (req : PublishRequest) : (s.step (.publish req)).Inv := by
  have hphase : (if s.state.ownsPartition req.key then HandlerPhase.ensureTopic
      else .forwarded) = .ensureTopic ∨
      (if s.state.ownsPartition req.key then HandlerPhase.ensureTopic else .forwarded) =
        .forwarded := by
    split_ifs
    · exact .inl rfl
    · exact .inr rfl
  have hheld : (s.state.step (.publish req)).held = s.state.held := by
    funext d
    cases d with
    | none => rfl
    | some j =>
        simp only [PublishState.step, held]
        rcases Nat.lt_trichotomy j s.state.handlers.length with hlt | heq | hgt
        · rw [List.getElem?_append_left hlt]
        · subst heq
          rw [List.getElem?_concat_length, List.getElem?_eq_none (Nat.le_refl _)]
          rcases hphase with hp | hp <;> rw [hp] <;> rfl
        · rw [List.getElem?_eq_none (by simp; omega), List.getElem?_eq_none (by omega)]
  refine ⟨hinv.calls.push req hphase fun i hi => mem_returned hi, ?_, hinv.logged, hinv.room⟩
  have hqueues : queues (s.step (.publish req)).state = queues s.state := by
    rw [queues, show (s.step (.publish req)).state.held = s.state.held from hheld]
    rfl
  rw [hqueues]
  -- the new call is not among the requests yet
  apply hinv.inOrder.congr
  intro t t' ht' hprec
  have hlt : t'.tag < s.earlier.length := by
    rw [hinv.calls.length]
    exact hinv.calls.known t' ht'
  simpa only [precedes, step, List.getElem?_append_left hlt] using hprec

/-- **Step lemma.**  A step in turn keeps the invariant. -/
theorem Inv.step (hinv : s.Inv) (label : PublishLabel) (hturn : s.inTurn label = true) :
    (s.step label).Inv := by
  cases label with
  | publish req => exact hinv.publish req
  | handler i env =>
      cases hi : s.state.handlers[i]? with
      | none =>
          have hsame : s.step (.handler i env) = s := by
            simp only [TimedState.step, PublishState.step, hi]
          rw [hsame]
          exact hinv
      | some h =>
          have hstep := hinv.stepHandler hi hturn
          simpa only [TimedState.step, PublishState.step, hi] using hstep
  | flusher env => exact hinv.stepFlusher hturn

theorem inv_start (partitionId totalPartitions : UInt32) (recovered : String → Log) :
    (start partitionId totalPartitions recovered).Inv where
  calls := {
    own := by rintro i h ⟨⟩
    known := by rintro t ⟨⟩
    onTopic := by rintro t ⟨⟩
    ensured := by rintro i h ⟨⟩
    length := rfl
    returned := by rintro j calls ⟨⟩ }
  inOrder := {
    nodup := List.nodup_nil
    respects := by rintro a ⟨⟩
    fifo := by
      intro d
      cases d <;> exact List.Pairwise.nil
    mem_stored := by rintro a ⟨⟩
    mem_live := by
      rintro a (hpending | ⟨d, hd⟩)
      · cases hpending
      · cases d <;> cases hd
    live := by rintro a ⟨⟩
    stored := List.Pairwise.nil }
  logged := by
    rintro topic ⟨⟩
  room := Nat.zero_lt_succ 99

/-- **The offsets of a topic follow the order of the calls** in a run in which
nobody hands a request to the storage while somebody else holds an earlier one
of the same topic. -/
theorem ordered_of_inTurn (partitionId totalPartitions : UInt32) (recovered : String → Log)
    (labels : List PublishLabel)
    (hturn : Along step (fun s label => s.inTurn label = true)
      (start partitionId totalPartitions recovered) labels) :
    Always step Ordered (start partitionId totalPartitions recovered) labels :=
  (Always.of_along (inv_start partitionId totalPartitions recovered) hturn
    fun _ label hinv hlabel => hinv.step label hlabel).mono fun _ hinv => hinv.ordered

/-- Another request to the topic of `hiRequest`. -/
def hoRequest : PublishRequest := { Broker.hiRequest with payload := "ho" }

/-- A request is published, popped and stored, and then another one. -/
def oneByOne : List PublishLabel :=
  .publish Broker.hiRequest :: List.replicate 5 (.handler 0 (stepAt 0)) ++
    List.replicate 11 (.flusher (stepAt (10 * 10 ^ 6))) ++
    .publish hoRequest :: List.replicate 5 (.handler 1 (stepAt (10 * 10 ^ 6))) ++
    List.replicate 11 (.flusher (stepAt (20 * 10 ^ 6)))

/-- The log has them in that order. -/
theorem oneByOne_ordered :
    Along step (fun s label => s.inTurn label = true) (start 0 1 fun _ => []) oneByOne ∧
      Always step Ordered (start 0 1 fun _ => []) oneByOne ∧
      (oneByOne.foldl step (start 0 1 fun _ => [])).state.broker.storage.log? "t" 0 =
        some [utf8 "hi", utf8 "ho"] :=
  ⟨by decide, ordered_of_inTurn 0 1 (fun _ => []) oneByOne (by decide), by decide +kernel⟩

/-- A request is published and acknowledged, and the flusher pops it.  Before the
flusher goes on, a second one is published; its handler pops it after ten
milliseconds and processes it. -/
def overtaking : List PublishLabel :=
  .publish Broker.hiRequest :: List.replicate 5 (.handler 0 (stepAt 0)) ++
    .flusher (stepAt (10 * 10 ^ 6)) ::
    .publish hoRequest :: List.replicate 2 (.handler 1 (stepAt (10 * 10 ^ 6))) ++
    List.replicate 11 (.handler 1 (stepAt (20 * 10 ^ 6))) ++
    List.replicate 10 (.flusher (stepAt (20 * 10 ^ 6)))

/-- The second one gets the smaller offset. -/
theorem overtaking_out_of_order :
    (overtaking.foldl step (start 0 1 fun _ => [])).state.broker.storage.log? "t" 0 =
        some [utf8 "ho", utf8 "hi"] ∧
      ¬ Always step Ordered (start 0 1 fun _ => []) overtaking := by
  refine ⟨by decide +kernel, fun h => ?_⟩
  have hless := h.last.offsets ⟨0, Broker.hiRequest⟩ ⟨1, hoRequest⟩ 1 0 (by decide) rfl
    ⟨1, by decide, by decide⟩ ⟨0, by decide, by decide⟩
  exact absurd hless (by decide)

end TimedState

end Rafka
