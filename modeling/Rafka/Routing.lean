/-
Rafka/Routing.lean

Messages go to the partition of their key (`Broker::publish`,
`Broker::forward_message_to_partition` and `Broker::forward_message` in
`crates/broker/src/broker.rs`).

A broker that does not own the partition of a message looks for one that does: in
the mesh, three times, in the mesh again after it has been synchronised, and at
last in the static configuration.  All of these may be stale or wrong, and so may
be the address that is found.  What keeps messages apart is that the broker that
is called looks at the partition once more.

Main result (`routed_always`): in every run of brokers that agree on the number of
partitions, whatever their tables say, a message enters the batcher or the storage
of a broker of its partition only, and at most once; and if a broker of another
partition was called, it refuses, the answer is an error, and nothing is stored.
-/
import Rafka.Ledger
import Rafka.MeshSync

namespace Rafka

/-! ### The choice of a broker -/

/-- `BrokerInfo`, without the time of the last health check. -/
structure BrokerInfo where
  brokerId : String
  address : String
  port : UInt16
  partitionId : UInt32
  totalPartitions : UInt32
  isHealthy : Bool

/-- `SocketAddr::new`. -/
def SocketAddr.new : IpAddr → UInt16 → SocketAddr
  | .v4 ip, port => .v4 ip port
  | .v6 ip, port => .v6 ip port 0 0

/-- The record that `forward_message_to_partition` makes of a configured broker. -/
def NodeInfo.ofBroker (parse : String → Option IpAddr) (broker : BrokerInfo) (now : EpochTime) :
    NodeInfo where
  id := ⟨broker.brokerId⟩
  address := SocketAddr.new ((parse broker.address).getD (.v4 0x7f000001)) broker.port
  partitionId := broker.partitionId
  totalPartitions := broker.totalPartitions
  lastSeen := unixSecs now
  isAlive := broker.isHealthy
  metadata := ∅

/-- What a call of `forward_message_to_partition` finds, each time it looks. -/
structure Tables where
  /-- The topology of the mesh, if there is one, at the three attempts. -/
  attempts : Fin 3 → Option MeshTopology
  /-- The topology after the manual synchronisation. -/
  synced : Option MeshTopology
  /-- The brokers of the cluster configuration, in the order of the iteration. -/
  brokers : List BrokerInfo
  now : EpochTime

namespace Tables

/-- `Broker::get_node_for_partition`. -/
def getNodeForPartition (mesh : Option MeshTopology) (partitionId : UInt32) : Option NodeInfo :=
  mesh.bind fun topology => topology.getNodeForPartition partitionId

/-- `ClusterManager::get_broker_for_partition`. -/
def getBrokerForPartition (tables : Tables) (partitionId : UInt32) : Option BrokerInfo :=
  tables.brokers.find? fun broker => broker.partitionId = partitionId

/-- The node that `forward_message_to_partition` decides for. -/
def targetNode (parse : String → Option IpAddr) (tables : Tables) (targetPartition : UInt32) :
    Option NodeInfo :=
  match [0, 1, 2].findSome? fun attempt =>
      getNodeForPartition (tables.attempts attempt) targetPartition with
  | some node => some node
  | none =>
      match getNodeForPartition tables.synced targetPartition with
      | some node => some node
      | none =>
          (tables.getBrokerForPartition targetPartition).map fun broker =>
            NodeInfo.ofBroker parse broker tables.now

end Tables

/-- The first test of `forward_message_to_partition`: the broker handles the message
itself (`handle_local_message`). -/
def Node.handlesLocally (n : Node) (req : PublishRequest) (targetPartition : UInt32) : Bool :=
  PublishState.hashKey req.key % n.totalPartitions == n.broker.partitionId &&
    n.broker.partitionId == targetPartition

/-! ### The cluster and its ledgers -/

namespace Cluster

/-- What a step takes in on broker `b`. -/
def takes (c : Cluster) : ClusterLabel → Nat → List Tagged
  | .node a label, b =>
      if b = a then
        match c.nodes[a]? with
        | some n => n.takes label
        | none => []
      else []
  | _, _ => []

/-- The partition to which task `i` of broker `a` is about to forward. -/
def targetPartition? (c : Cluster) (a i : Nat) : Option UInt32 :=
  match c.nodes[a]?.bind fun n => n.tasks[i]? with
  | some (.publish _ (.forward targetPartition)) => some targetPartition
  | _ => none

end Cluster

/-- A cluster, and for each of its brokers the messages that it has taken in. -/
structure Audit where
  cluster : Cluster
  ledger : Nat → List Tagged

/-- What happens next. -/
inductive RoutedLabel
  | node (a : Nat) (label : NodeLabel)
  /-- Task `i` of broker `a` looks for a broker and calls whoever listens at its
  address. -/
  | route (a i : Nat) (tables : Tables) (listening : SocketAddr → Option Nat)
  /-- The call of task `i` of broker `a` fails on the way. -/
  | fail (a i : Nat)
  | reply (call : ForwardCall) (fresh : Fresh)
  | restart (a : Nat)

namespace Audit

/-- Brokers as `Broker::new` makes them. -/
def start (brokers : List (UInt32 × UInt32 × (String → Log))) : Audit where
  cluster := .start brokers
  ledger _ := []

/-- One step, whoever is called. -/
def step (s : Audit) (label : ClusterLabel) : Audit where
  cluster := s.cluster.step label
  ledger b := s.ledger b ++ s.cluster.takes label b

/-- One step, in which the broker that is called is looked up. -/
def routedStep (parse : String → Option IpAddr) (s : Audit) : RoutedLabel → Audit
  | .node a label => s.step (.node a label)
  | .route a i tables listening =>
      match s.cluster.targetPartition? a i with
      | some targetPartition =>
          match (tables.targetNode parse targetPartition).bind fun node =>
              listening node.address with
          | some b => s.step (.forward a i b)
          | none => s.step (.unreachable a i)
      | none => s
  | .fail a i => s.step (.unreachable a i)
  | .reply call fresh => s.step (.reply call fresh)
  | .restart a => s.step (.restart a)

/-! ### What is to hold -/

/-- Task `i` of broker `a` is a call of `publish` with this request. -/
def Publishes (s : Audit) (a i : Nat) (req : PublishRequest) : Prop :=
  ∃ n phase, s.cluster.nodes[a]? = some n ∧ n.tasks[i]? = some (.publish req phase)

/-- The message has been taken in by broker `b`, waits in its batcher, or has been
appended to its storage. -/
def Occurs (s : Audit) (b : Nat) (t : Tagged) : Prop :=
  t ∈ s.ledger b ∨ ∃ m, s.cluster.nodes[b]? = some m ∧
    (t ∈ m.batcher.pending ∨ t ∈ m.storedMessages)

/-- The broker that was called has another partition than the message. -/
def Misrouted (total : UInt32) (s : Audit) (call : ForwardCall) (req : PublishRequest) : Prop :=
  s.Publishes call.origin call.task req ∧ ∃ m, s.cluster.nodes[call.target]? = some m ∧
    m.broker.partitionId ≠ partitionOf total req.key

/-- Messages are where they belong. -/
structure Routed (total : UInt32) (s : Audit) : Prop where
  /-- What a call of `publish` causes, it causes on a broker of the partition. -/
  home : ∀ a i req b t m, s.Publishes a i req → s.cluster.Carries a ⟨i, req⟩ b t →
    s.Occurs b t → s.cluster.nodes[b]? = some m →
    m.broker.partitionId = partitionOf total req.key ∧ partitionOf total req.key < total
  /-- There it is recorded under this partition, which is the only one. -/
  filed : ∀ a i req b t m offset, s.Publishes a i req → s.cluster.Carries a ⟨i, req⟩ b t →
    s.cluster.nodes[b]? = some m → (t, offset) ∈ m.stored →
    (∀ topic partition, m.broker.storage.log? topic partition ≠ none →
      partition = (partitionOf total req.key).toInt32) ∧
    ∃ k : Nat, offset = Int64.ofNat k ∧ (m.log t.req.topic)[k]? = some (utf8 t.req.payload)
  /-- All that it causes is one entry or one append, and at most one append. -/
  once : ∀ a i req b t b' t', s.Publishes a i req → s.cluster.Carries a ⟨i, req⟩ b t →
    s.Occurs b t → s.cluster.Carries a ⟨i, req⟩ b' t' → s.Occurs b' t' → b = b' ∧ t = t'
  ledger : ∀ b m t, s.cluster.nodes[b]? = some m → (s.ledger b).count t ≤ 1 ∧
    m.batcher.pending.count t + m.storedMessages.count t ≤ 1
  /-- No call of `publish` comes to `handle_local_message`. -/
  notLocal : ∀ (a i : Nat) n req targetPartition, s.cluster.nodes[a]? = some n →
    n.tasks[i]? = some (.publish req (.forward targetPartition)) →
    n.handlesLocally req targetPartition = false
  /-- A broker that was called by mistake refuses, or it has not looked yet. -/
  refused : ∀ call ∈ s.cluster.calls, ∀ req, s.Misrouted total call req →
    ∃ m phase, s.cluster.nodes[call.target]? = some m ∧
      m.tasks[call.callee]? = some
        (.forwardMessage (Cluster.forwardRequest req (partitionOf total req.key)) phase) ∧
      phase.Refused m.broker.partitionId
        (Cluster.forwardRequest req (partitionOf total req.key))
  /-- Then nothing is stored and there is no answer with success. -/
  nothing : ∀ call ∈ s.cluster.calls, ∀ req, s.Misrouted total call req →
    (∀ b t, s.cluster.Carries call.origin ⟨call.task, req⟩ b t → ¬ s.Occurs b t) ∧
    ∀ n t r, s.cluster.nodes[call.origin]? = some n → (t, r) ∈ n.responses → t.tag ≠ call.task
  /-- As soon as it has looked and the result arrives, `publish` returns an error. -/
  returns : ∀ call ∈ s.cluster.calls, ∀ req, s.Misrouted total call req →
    ∀ n targetPartition m forwardReq phase env fresh, s.cluster.nodes[call.origin]? = some n →
    n.tasks[call.task]? = some (.publish req (.forwarded targetPartition)) →
    s.cluster.nodes[call.target]? = some m →
    m.tasks[call.callee]? = some (.forwardMessage forwardReq phase) → phase ≠ .lost →
    ∃ n', ((s.step (.node call.target (.task call.callee env))).step
        (.reply call fresh)).cluster.nodes[call.origin]? = some n' ∧
      n'.tasks[call.task]? = some (.publish req .returned) ∧ n'.responses = n.responses

/-! ### The invariant -/

variable {total : UInt32} {s s' : Audit}

/-- A call joins a publishing task of another partition and the task that it made on
the broker that was called. -/
def Linked (total : UInt32) (c : Cluster) (call : ForwardCall) : Prop :=
  ∃ n x req m y, c.nodes[call.origin]? = some n ∧ n.tasks[call.task]? = some x ∧
    x.request = some (.inl req) ∧ x.called = true ∧
    partitionOf total req.key ≠ n.broker.partitionId ∧
    c.nodes[call.target]? = some m ∧ m.tasks[call.callee]? = some y ∧
    y.request = some (.inr (Cluster.forwardRequest req (partitionOf total req.key)))

/-- The answer to `t` on broker `a` is for a message that is at home there, or that a
broker of its partition was called for. -/
def Justified (total : UInt32) (c : Cluster) (a : Nat) (n : Node) (t : Tagged) : Prop :=
  (∃ x, n.tasks[t.tag]? = some x ∧ x.request = some (.inl t.req)) ∧
    (partitionOf total t.req.key = n.broker.partitionId ∨
      ∃ call ∈ c.calls, call.origin = a ∧ call.task = t.tag ∧
        ∃ m, c.nodes[call.target]? = some m ∧ m.broker.partitionId = partitionOf total t.req.key)

/-- The invariant. -/
structure Inv (total : UInt32) (s : Audit) : Prop where
  books : ∀ (b : Nat) (n : Node), s.cluster.nodes[b]? = some n → n.Books total (s.ledger b)
  filed : ∀ (b : Nat) (n : Node), s.cluster.nodes[b]? = some n → n.Filed
  absent : ∀ b : Nat, s.cluster.nodes[b]? = none → s.ledger b = []
  linked : ∀ call ∈ s.cluster.calls, Linked total s.cluster call
  unique : ∀ call ∈ s.cluster.calls, ∀ call' ∈ s.cluster.calls,
    call.origin = call'.origin → call.task = call'.task → call = call'
  answered : ∀ (a : Nat) (n : Node) t r, s.cluster.nodes[a]? = some n → (t, r) ∈ n.responses →
    Justified total s.cluster a n t

/-! ### Steps of one broker in the cluster -/

/-- What a step may do to a broker.  An answer that is new is for a message of which
`P` holds. -/
structure NodeStep (total : UInt32) (ledger ledger' : List Tagged) (P : Tagged → Prop)
    (n n' : Node) : Prop where
  continues : n.Continues n'
  books : n.Books total ledger → n'.Books total ledger'
  filed : n.Filed → n'.Filed
  responses : n.Books total ledger → ∀ t r, (t, r) ∈ n'.responses → (t, r) ∈ n.responses ∨ P t

theorem NodeStep.refl (ledger : List Tagged) (P : Tagged → Prop) (n : Node) :
    NodeStep total ledger ledger P n n :=
  ⟨.refl n, id, id, fun _ _ _ hr => .inl hr⟩

theorem NodeStep.trans {l l' l'' : List Tagged} {P : Tagged → Prop} {n n' n'' : Node}
    (h : NodeStep total l l' P n n') (h' : NodeStep total l' l'' P n' n'') :
    NodeStep total l l'' P n n'' where
  continues := h.continues.trans h'.continues
  books := h'.books ∘ h.books
  filed := h'.filed ∘ h.filed
  responses hbooks t r hr := by
    rcases h'.responses (h.books hbooks) t r hr with hmid | hnew
    · exact h.responses hbooks t r hmid
    · exact .inr hnew

/-- Every broker makes such a step. -/
def Evolves (total : UInt32) (P : Nat → Tagged → Prop) (s s' : Audit) : Prop :=
  ∀ b : Nat, Option.Rel (NodeStep total (s.ledger b) (s'.ledger b) (P b)) s.cluster.nodes[b]?
    s'.cluster.nodes[b]?

theorem Evolves.forth {P : Nat → Tagged → Prop} (h : Evolves total P s s') {b : Nat} {n : Node}
    (hn : s.cluster.nodes[b]? = some n) : ∃ n', s'.cluster.nodes[b]? = some n' ∧
      NodeStep total (s.ledger b) (s'.ledger b) (P b) n n' := by
  have hrel := h b
  rw [hn] at hrel
  cases hrel' : s'.cluster.nodes[b]? with
  | none =>
      rw [hrel'] at hrel
      cases hrel
  | some n' =>
      rw [hrel'] at hrel
      cases hrel with
      | some hstep => exact ⟨n', rfl, hstep⟩

theorem Evolves.back {P : Nat → Tagged → Prop} (h : Evolves total P s s') {b : Nat} {n' : Node}
    (hn' : s'.cluster.nodes[b]? = some n') : ∃ n, s.cluster.nodes[b]? = some n ∧
      NodeStep total (s.ledger b) (s'.ledger b) (P b) n n' := by
  have hrel := h b
  rw [hn'] at hrel
  cases hrel' : s.cluster.nodes[b]? with
  | none =>
      rw [hrel'] at hrel
      cases hrel
  | some n =>
      rw [hrel'] at hrel
      cases hrel with
      | some hstep => exact ⟨n, rfl, hstep⟩

/-- Links stay. -/
theorem Evolves.linked {P : Nat → Tagged → Prop} (h : Evolves total P s s') {call : ForwardCall}
    (hlinked : Linked total s.cluster call) : Linked total s'.cluster call := by
  obtain ⟨n, x, req, m, y, hn, hx, hreq, hcalled, hother, hm, hy, hforward⟩ := hlinked
  obtain ⟨n', hn', hstep⟩ := h.forth hn
  obtain ⟨x', hx', hgoes⟩ := hstep.continues.tasks _ x hx
  obtain ⟨m', hm', hstep'⟩ := h.forth hm
  obtain ⟨y', hy', hgoes'⟩ := hstep'.continues.tasks _ y hy
  refine ⟨n', x', req, m', y', hn', hx', hgoes.request.trans hreq, hgoes.called hcalled, ?_, hm',
    hy', hgoes'.request.trans hforward⟩
  rw [hstep.continues.partitionId]
  exact hother

/-- What justifies an answer stays. -/
theorem Evolves.justified {P : Nat → Tagged → Prop} (h : Evolves total P s s')
    (hcalls : s.cluster.calls ⊆ s'.cluster.calls) {a : Nat} {n n' : Node} {t : Tagged}
    (hcontinues : n.Continues n') (hjust : Justified total s.cluster a n t) :
    Justified total s'.cluster a n' t := by
  obtain ⟨⟨x, hx, hreq⟩, hwhy⟩ := hjust
  obtain ⟨x', hx', hgoes⟩ := hcontinues.tasks _ x hx
  refine ⟨⟨x', hx', hgoes.request.trans hreq⟩, ?_⟩
  rcases hwhy with hhome | ⟨call, hcall, horigin, htask, m, hm, hpartition⟩
  · rw [hcontinues.partitionId]
    exact .inl hhome
  · obtain ⟨m', hm', hstep⟩ := h.forth hm
    refine .inr ⟨call, hcalls hcall, horigin, htask, m', hm', ?_⟩
    rw [hstep.continues.partitionId]
    exact hpartition

/-- **The invariant rule.**  Brokers make steps, and calls are added that join tasks
which had none. -/
theorem Inv.evolve (h : s.Inv total) {P : Nat → Tagged → Prop} (hsteps : Evolves total P s s')
    (new : List ForwardCall) (hcalls : s'.cluster.calls = s.cluster.calls ++ new)
    (hlinked : ∀ call ∈ new, Linked total s'.cluster call)
    (hfresh : ∀ call ∈ new, ∀ call' ∈ s.cluster.calls,
      ¬ (call.origin = call'.origin ∧ call.task = call'.task))
    (hone : ∀ call ∈ new, ∀ call' ∈ new, call = call')
    (habsent : ∀ b : Nat, s.cluster.nodes[b]? = none → s'.ledger b = s.ledger b)
    (hP : ∀ (a : Nat) (n : Node) t, s.cluster.nodes[a]? = some n → P a t →
      Justified total s.cluster a n t) : s'.Inv total := by
  have hsub : s.cluster.calls ⊆ s'.cluster.calls := by
    rw [hcalls]
    exact List.subset_append_left _ _
  constructor
  · intro b n' hn'
    obtain ⟨n, hn, hstep⟩ := hsteps.back hn'
    exact hstep.books (h.books b n hn)
  · intro b n' hn'
    obtain ⟨n, hn, hstep⟩ := hsteps.back hn'
    exact hstep.filed (h.filed b n hn)
  · intro b hb
    have hold : s.cluster.nodes[b]? = none := by
      cases hn : s.cluster.nodes[b]? with
      | none => rfl
      | some n =>
          obtain ⟨n', hn', -⟩ := hsteps.forth hn
          rw [hb] at hn'
          cases hn'
    rw [habsent b hold, h.absent b hold]
  · intro call hcall
    rw [hcalls] at hcall
    rcases List.mem_append.mp hcall with hold | hnew
    · exact hsteps.linked (h.linked call hold)
    · exact hlinked call hnew
  · intro call hcall call' hcall' horigin htask
    rw [hcalls] at hcall hcall'
    rcases List.mem_append.mp hcall with hold | hnew
    · rcases List.mem_append.mp hcall' with hold' | hnew'
      · exact h.unique call hold call' hold' horigin htask
      · exact absurd ⟨horigin.symm, htask.symm⟩ (hfresh call' hnew' call hold)
    · rcases List.mem_append.mp hcall' with hold' | hnew'
      · exact absurd ⟨horigin, htask⟩ (hfresh call hnew call' hold')
      · exact hone call hnew call' hnew'
  · intro a n' t r hn' hr
    obtain ⟨n, hn, hstep⟩ := hsteps.back hn'
    rcases hstep.responses (h.books a n hn) t r hr with hold | hnew
    · exact hsteps.justified hsub hstep.continues (h.answered a n t r hn hold)
    · exact hsteps.justified hsub hstep.continues (hP a n t hn hnew)

/-! ### Steps of the cluster -/

variable {P : Nat → Tagged → Prop} {a i : Nat} {n n' : Node} {x y : Task}

theorem Evolves.trans {s'' : Audit} (h : Evolves total P s s') (h' : Evolves total P s' s'') :
    Evolves total P s s'' := by
  intro b
  cases hn : s.cluster.nodes[b]? with
  | none =>
      have hmid : s'.cluster.nodes[b]? = none := by
        cases hn' : s'.cluster.nodes[b]? with
        | none => rfl
        | some n' =>
            obtain ⟨n, hsome, -⟩ := h.back hn'
            rw [hn] at hsome
            cases hsome
      have hrel := h' b
      rw [hmid] at hrel
      cases hn'' : s''.cluster.nodes[b]? with
      | none => exact .none
      | some n'' =>
          rw [hn''] at hrel
          cases hrel
  | some n =>
      obtain ⟨n', hn', hstep⟩ := h.forth hn
      obtain ⟨n'', hn'', hstep'⟩ := h'.forth hn'
      rw [hn'']
      exact .some (hstep.trans hstep')

/-- No broker changes. -/
theorem evolves_of_eq (hnodes : s'.cluster.nodes = s.cluster.nodes)
    (hledger : s'.ledger = s.ledger) : Evolves total P s s' := by
  intro b
  rw [hnodes, hledger]
  cases s.cluster.nodes[b]? with
  | none => exact .none
  | some n => exact .some (.refl _ _ n)

/-- One broker changes. -/
theorem evolves_setNode (hn : s.cluster.nodes[a]? = some n)
    (hnodes : s'.cluster.nodes = s.cluster.nodes.set a n')
    (hledger : ∀ b, b ≠ a → s'.ledger b = s.ledger b)
    (hstep : NodeStep total (s.ledger a) (s'.ledger a) (P a) n n') : Evolves total P s s' := by
  intro b
  by_cases hba : b = a
  · subst hba
    have hlt := (List.getElem?_eq_some_iff.mp hn).1
    rw [hnodes, hn, List.getElem?_set_self hlt]
    exact .some hstep
  · rw [hnodes, List.getElem?_set_ne (Ne.symm hba), hledger b hba]
    cases s.cluster.nodes[b]? with
    | none => exact .none
    | some m => exact .some (.refl _ _ m)

/-- A publishing task moves, and answers may be given. -/
theorem nodeStep_setTask (hi : n.tasks[i]? = some x) (hgoes : Node.GoesOn x y)
    (hplaced : ∀ partitionId, x.Placed total partitionId → y.Placed total partitionId)
    (hpopped : y.popped = x.popped) {Q : Tagged → Prop}
    (responses : List (Tagged × PublishResponse))
    (hresponses : ∀ t r, (t, r) ∈ responses → (t, r) ∈ n.responses ∨ Q t)
    (ledger : List Tagged) :
    NodeStep total ledger ledger Q n
      { n with tasks := n.tasks.set i y, responses := responses } where
  continues := Node.continues_set hi rfl rfl hgoes
  books hbooks := by
    rw [← List.append_nil ledger]
    refine hbooks.set hi rfl ⟨rfl, rfl, rfl⟩ hgoes
      (hplaced _ (hbooks.placed x (List.mem_of_getElem? hi))) (fun u => ?_) List.nodup_nil ?_
    · simp only [Node.tally, hpopped, List.count_nil]
      exact Nat.le_refl _
    · rintro t ⟨⟩
  filed hfiled := hfiled.congr rfl rfl rfl rfl rfl
  responses _ := hresponses

/-- What justifies an answer, by the broker that gives it. -/
def Answerable (total : UInt32) (c : Cluster) (a : Nat) (t : Tagged) : Prop :=
  ∀ n, c.nodes[a]? = some n → Justified total c a n t

/-- **Invariant rule** for a step that makes no calls. -/
theorem Inv.evolve_calm (h : s.Inv total) (hsteps : Evolves total (Answerable total s.cluster) s s')
    (hcalls : s'.cluster.calls = s.cluster.calls)
    (habsent : ∀ b : Nat, s.cluster.nodes[b]? = none → s'.ledger b = s.ledger b) :
    s'.Inv total := by
  refine h.evolve hsteps [] (by rw [hcalls, List.append_nil]) ?_ ?_ ?_ habsent
    fun a n t hn hP => hP n hn
  · rintro call ⟨⟩
  · rintro call ⟨⟩
  · rintro call ⟨⟩

theorem nodes_step (s : Audit) (label : ClusterLabel) :
    (s.step label).cluster.nodes = (s.cluster.act label).nodes := rfl

theorem calls_step (s : Audit) (label : ClusterLabel) :
    (s.step label).cluster.calls = (s.cluster.act label).calls := rfl

theorem takes_of_ne {c : Cluster} {label : NodeLabel} {b : Nat} (hba : b ≠ a) :
    c.takes (.node a label) b = [] := if_neg hba

/-- A step in which nothing is taken in leaves the ledgers. -/
theorem ledger_step {label : ClusterLabel} (hlabel : ∀ b, s.cluster.takes label b = []) :
    (s.step label).ledger = s.ledger := by
  funext b
  show s.ledger b ++ _ = _
  rw [hlabel b, List.append_nil]

/-- A step that does nothing. -/
theorem Inv.idle (h : s.Inv total) {label : ClusterLabel}
    (hlabel : ∀ b, s.cluster.takes label b = []) (hact : s.cluster.act label = s.cluster) :
    (s.step label).Inv total := by
  refine h.evolve_calm (evolves_of_eq ?_ (ledger_step hlabel)) ?_ fun b _ => ?_
  · rw [nodes_step, hact]
  · rw [calls_step, hact]
  · rw [ledger_step hlabel]

/-- A step of one broker by itself. -/
theorem Inv.node (h : s.Inv total) (a : Nat) (label : NodeLabel) :
    (s.step (.node a label)).Inv total := by
  cases hn : s.cluster.nodes[a]? with
  | none =>
      have hact : s.cluster.act (.node a label) = s.cluster := by
        simp only [Cluster.act, hn]
      have htakes : ∀ b, s.cluster.takes (.node a label) b = [] := by
        intro b
        simp only [Cluster.takes, hn, ite_self]
      exact h.idle htakes hact
  | some n =>
      have hact : s.cluster.act (.node a label) = s.cluster.setNode a (n.step label) := by
        simp only [Cluster.act, hn]
      have htakes : s.cluster.takes (.node a label) a = n.takes label := by
        simp only [Cluster.takes, hn, if_true]
      have hother : ∀ b, b ≠ a → (s.step (.node a label)).ledger b = s.ledger b := by
        intro b hba
        show s.ledger b ++ _ = _
        rw [takes_of_ne hba, List.append_nil]
      refine h.evolve_calm (evolves_setNode hn (by rw [nodes_step, hact]; rfl) hother ?_)
        (by rw [calls_step, hact]; rfl) ?_
      · show NodeStep total (s.ledger a) (s.ledger a ++ s.cluster.takes (.node a label) a) _ n _
        rw [htakes]
        refine ⟨(n.move_step label).continues, fun hbooks => hbooks.step label,
          fun hfiled => hfiled.step label, fun hbooks t r hr => ?_⟩
        rcases hbooks.responses_move (n.move_step label) hr with hold | ⟨x, hx, hreq, hhome⟩
        · exact .inl hold
        · refine .inr fun n' hn' => ?_
          rw [hn] at hn'
          cases hn'
          exact ⟨⟨x, hx, hreq⟩, .inl hhome⟩
      · intro b hb
        apply hother b
        rintro rfl
        rw [hn] at hb
        cases hb

/-- One broker changes, and nothing is taken in. -/
theorem Inv.setNode (h : s.Inv total) {label : ClusterLabel}
    (hlabel : ∀ b, s.cluster.takes label b = []) (hn : s.cluster.nodes[a]? = some n)
    (hact : s.cluster.act label = s.cluster.setNode a n')
    (hstep : NodeStep total (s.ledger a) (s.ledger a) (Answerable total s.cluster a) n n') :
    (s.step label).Inv total := by
  have hledger := ledger_step hlabel
  have hnodes : (s.step label).cluster.nodes = s.cluster.nodes.set a n' := by
    rw [nodes_step, hact]
    rfl
  refine h.evolve_calm (evolves_setNode hn hnodes (fun b _ => congrFun hledger b) ?_) ?_
    fun b _ => congrFun hledger b
  · rw [hledger]
    exact hstep
  · rw [calls_step, hact]
    rfl

theorem Inv.restart (h : s.Inv total) (a : Nat) : (s.step (.restart a)).Inv total := by
  cases hn : s.cluster.nodes[a]? with
  | none => exact h.idle (fun _ => rfl) (by simp only [Cluster.act, hn])
  | some n =>
      have hact : s.cluster.act (.restart a) = s.cluster.setNode a n.restart := by
        simp only [Cluster.act, hn]
      apply h.setNode (fun _ => rfl) hn hact
      exact ⟨n.continues_restart, fun hbooks => hbooks.restart, fun hfiled => hfiled.restart,
        fun _ t r hr => .inl hr⟩

theorem Inv.unreachable (h : s.Inv total) (a i : Nat) :
    (s.step (.unreachable a i)).Inv total := by
  cases hn : s.cluster.nodes[a]? with
  | none => exact h.idle (fun _ => rfl) (by simp only [Cluster.act, Cluster.unreachable, hn])
  | some n =>
      have hreturn : ∀ req phase, n.tasks[i]? = some (.publish req phase) →
          (Task.publish req phase).popped = [] →
          NodeStep total (s.ledger a) (s.ledger a) (Answerable total s.cluster a) n
            { n with tasks := n.tasks.set i (.publish req .returned) } := by
        intro req phase hi hpopped
        exact nodeStep_setTask (y := .publish req .returned) hi ⟨rfl, fun _ => rfl, fun _ => rfl⟩
          (fun _ _ => trivial) hpopped.symm n.responses (fun t r hr => .inl hr) _
      by_cases hwaits : ∃ req target, n.tasks[i]? = some (.publish req (.forward target)) ∨
          n.tasks[i]? = some (.publish req (.forwarded target))
      · obtain ⟨req, target, hi | hi⟩ := hwaits
        · refine h.setNode (fun _ => rfl) hn ?_ (hreturn req _ hi rfl)
          simp only [Cluster.act, Cluster.unreachable, hn, hi]
          rfl
        · refine h.setNode (fun _ => rfl) hn ?_ (hreturn req _ hi rfl)
          simp only [Cluster.act, Cluster.unreachable, hn, hi]
          rfl
      · apply h.idle (fun _ => rfl)
        simp only [Cluster.act, Cluster.unreachable, hn]
        split
        · rename_i req target hi
          exact absurd ⟨req, target, .inl hi⟩ hwaits
        · rename_i req target hi
          exact absurd ⟨req, target, .inr hi⟩ hwaits
        · rfl

/-- A broker that has answered a call with success has the partition of the
message. -/
theorem Inv.partitionId_of_ok (h : s.Inv total) {call : ForwardCall}
    (hcall : call ∈ s.cluster.calls) {req : PublishRequest} (hn : s.cluster.nodes[call.origin]? = some n)
    (hx : n.tasks[call.task]? = some x) (hreq : x.request = some (.inl req))
    {resp : ForwardMessageResponse} (hresult : s.cluster.result? call = some (.ok resp)) :
    ∃ m, s.cluster.nodes[call.target]? = some m ∧
      m.broker.partitionId = partitionOf total req.key := by
  obtain ⟨n', x', req', m, y, hn', hx', hreq', -, -, hm, hy, hforward⟩ := h.linked call hcall
  rw [hn] at hn'
  cases hn'
  rw [hx] at hx'
  cases hx'
  rw [hreq] at hreq'
  cases hreq'
  refine ⟨m, hm, ?_⟩
  -- the task that was made for the call has returned, and not with a refusal
  have hplaced := (h.books _ m hm).placed y (List.mem_of_getElem? hy)
  simp only [Cluster.result?, hm, Option.bind_some, hy] at hresult
  split at hresult
  · rename_i forwardReq result heq
    cases heq
    cases hforward
    cases hresult
    rcases hplaced with hhome | hrefused
    · rw [← hhome]
      simp [Cluster.forwardRequest]
    · cases hrefused
  · cases hresult

section Reply

variable {call : ForwardCall} {req : PublishRequest} {target : UInt32}

theorem act_reply_error (hcall : call ∈ s.cluster.calls)
    (hn : s.cluster.nodes[call.origin]? = some n)
    (hx : n.tasks[call.task]? = some (.publish req (.forwarded target))) {message : String}
    (hresult : s.cluster.result? call = some (.error message)) (fresh : Fresh) :
    s.cluster.act (.reply call fresh) =
      s.cluster.setTask call.origin n call.task (.publish req .returned) := by
  simp only [Cluster.act, if_pos hcall, Cluster.reply, hn, hx, hresult]

theorem act_reply_ok (hcall : call ∈ s.cluster.calls)
    (hn : s.cluster.nodes[call.origin]? = some n)
    (hx : n.tasks[call.task]? = some (.publish req (.forwarded target)))
    {resp : ForwardMessageResponse} (hresult : s.cluster.result? call = some (.ok resp))
    (fresh : Fresh) :
    s.cluster.act (.reply call fresh) =
      s.cluster.setNode call.origin
        { n with
          tasks := n.tasks.set call.task (.publish req .returned)
          responses := n.responses ++
            [(⟨call.task, req⟩, Cluster.forwardedResponse fresh target resp)] } := by
  simp only [Cluster.act, if_pos hcall, Cluster.reply, hn, hx, hresult]
  rfl

end Reply

/-- The answer to a call arrives. -/
theorem Inv.reply (h : s.Inv total) (call : ForwardCall) (fresh : Fresh) :
    (s.step (.reply call fresh)).Inv total := by
  by_cases hcall : call ∈ s.cluster.calls
  · obtain ⟨n, x, req, m, y, hn, hx, hreq, -⟩ := h.linked call hcall
    by_cases hwaits : ∃ target result, x = .publish req (.forwarded target) ∧
        s.cluster.result? call = some result
    · obtain ⟨target, result, rfl, hresult⟩ := hwaits
      have hgoes : Node.GoesOn (.publish req (.forwarded target)) (.publish req .returned) :=
        ⟨rfl, fun _ => rfl, fun _ => rfl⟩
      cases result with
      | error message =>
          exact h.setNode (fun _ => rfl) hn (act_reply_error hcall hn hx hresult fresh)
            (nodeStep_setTask (y := .publish req .returned) hx hgoes (fun _ _ => trivial) rfl
              n.responses (fun t r hr => .inl hr) _)
      | ok resp =>
          obtain ⟨m', hm', hpartition⟩ := h.partitionId_of_ok hcall hn hx hreq hresult
          refine h.setNode (fun _ => rfl) hn (act_reply_ok hcall hn hx hresult fresh)
            (nodeStep_setTask (y := .publish req .returned) hx hgoes (fun _ _ => trivial) rfl
              (n.responses ++ [(⟨call.task, req⟩, Cluster.forwardedResponse fresh target resp)]) ?_ _)
          intro t r hr
          rcases List.mem_append.mp hr with hold | hnew
          · exact .inl hold
          · cases List.mem_singleton.mp hnew
            refine .inr fun n' hn' => ?_
            rw [hn] at hn'
            cases hn'
            exact ⟨⟨_, hx, hreq⟩, .inr ⟨call, hcall, rfl, rfl, m', hm', hpartition⟩⟩
    · apply h.idle (fun _ => rfl)
      simp only [Cluster.act, if_pos hcall, Cluster.reply, hn, hx]
      split
      · rename_i req' target resp heq hresult
        cases heq
        cases hreq
        exact absurd ⟨target, _, rfl, hresult⟩ hwaits
      · rename_i req' target message heq hresult
        cases heq
        cases hreq
        exact absurd ⟨target, _, rfl, hresult⟩ hwaits
      · rfl
  · exact h.idle (fun _ => rfl) (by simp only [Cluster.act, if_neg hcall])

theorem nodeStep_spawn (hplaced : x.Placed total n.broker.partitionId) (hpopped : x.popped = [])
    {Q : Tagged → Prop} (ledger : List Tagged) : NodeStep total ledger ledger Q n (n.spawn x) where
  continues := n.continues_spawn x
  books hbooks := hbooks.spawn hplaced hpopped
  filed hfiled := hfiled.congr rfl rfl rfl rfl rfl
  responses _ _ _ hr := .inl hr

/-- The task waits for the answer to a call. -/
def wait (s : Audit) (a : Nat) (n : Node) (i : Nat) (req : PublishRequest) (target : UInt32) :
    Audit where
  cluster := s.cluster.setTask a n i (.publish req (.forwarded target))
  ledger := s.ledger

section Forward

variable {b : Nat} {req : PublishRequest} {target : UInt32}

theorem act_forward (hn : s.cluster.nodes[a]? = some n)
    (hi : n.tasks[i]? = some (.publish req (.forward target))) (b : Nat) :
    s.cluster.act (.forward a i b) =
      match (s.wait a n i req target).cluster.nodes[b]? with
      | none => (s.wait a n i req target).cluster
      | some m =>
          { (s.wait a n i req target).cluster.setNode b
              (m.spawn (.forwardMessage (Cluster.forwardRequest req target) .checkPartition)) with
            calls := s.cluster.calls ++ [⟨a, i, b, m.tasks.length⟩] } := by
  simp only [Cluster.act, Cluster.forward, hn, hi]
  rfl

theorem evolves_wait (hn : s.cluster.nodes[a]? = some n)
    (hi : n.tasks[i]? = some (.publish req (.forward target))) :
    Evolves total P s (s.wait a n i req target) := by
  refine evolves_setNode hn rfl (fun _ _ => rfl) ?_
  exact nodeStep_setTask (y := .publish req (.forwarded target)) hi
    ⟨rfl, fun _ => rfl, fun _ => rfl⟩ (fun _ hplaced => hplaced) rfl n.responses
    (fun t r hr => .inl hr) _

/-- The new call joins the task that waits and the one that was made for it. -/
theorem linked_of_wait (hn : s.cluster.nodes[a]? = some n)
    (hi : n.tasks[i]? = some (.publish req (.forward target)))
    (hplaced : target = partitionOf total req.key ∧ target ≠ n.broker.partitionId)
    (hsteps : Evolves total P (s.wait a n i req target) s') {m : Node} {phase : ForwardPhase}
    {k : Nat} (hm : s'.cluster.nodes[b]? = some m)
    (hk : m.tasks[k]? = some (.forwardMessage (Cluster.forwardRequest req target) phase)) :
    Linked total s'.cluster ⟨a, i, b, k⟩ := by
  obtain ⟨htarget, hother⟩ := hplaced
  have hwaiting : (s.wait a n i req target).cluster.nodes[a]? =
      some { n with tasks := n.tasks.set i (.publish req (.forwarded target)) } :=
    List.getElem?_set_self (List.getElem?_eq_some_iff.mp hn).1
  have htask : (n.tasks.set i (.publish req (.forwarded target)))[i]? =
      some (.publish req (.forwarded target)) :=
    List.getElem?_set_self (List.getElem?_eq_some_iff.mp hi).1
  obtain ⟨n', hn', hstep⟩ := hsteps.forth hwaiting
  obtain ⟨x, hx, hgoes⟩ := hstep.continues.tasks i _ htask
  refine ⟨n', x, req, m, _, hn', hx, hgoes.request, hgoes.called rfl, ?_, hm, hk, ?_⟩
  · rw [hstep.continues.partitionId, ← htarget]
    exact hother
  · rw [← htarget]
    rfl

/-- The task that calls has called nobody before. -/
theorem Inv.fresh_of_forward (h : s.Inv total) (hn : s.cluster.nodes[a]? = some n)
    (hi : n.tasks[i]? = some (.publish req (.forward target))) {call : ForwardCall}
    (hcall : call ∈ s.cluster.calls) : ¬ (a = call.origin ∧ i = call.task) := by
  rintro ⟨rfl, rfl⟩
  obtain ⟨n', x, req', m, y, hn', hx, -, hcalled, -⟩ := h.linked call hcall
  rw [hn] at hn'
  cases hn'
  rw [hi] at hx
  cases hx
  cases hcalled

/-- A broker is called: first the task waits, then the other broker has a new task. -/
theorem Inv.forward (h : s.Inv total) (a i b : Nat) : (s.step (.forward a i b)).Inv total := by
  by_cases hwaits : ∃ n req target, s.cluster.nodes[a]? = some n ∧
      n.tasks[i]? = some (.publish req (.forward target))
  · obtain ⟨n, req, target, hn, hi⟩ := hwaits
    have hledger : (s.step (.forward a i b)).ledger = s.ledger := ledger_step fun _ => rfl
    have hmid : Evolves total (Answerable total s.cluster) s (s.wait a n i req target) :=
      evolves_wait hn hi
    have hact := act_forward hn hi b
    cases hb : (s.wait a n i req target).cluster.nodes[b]? with
    | none =>
        rw [hb] at hact
        refine h.evolve_calm (hmid.trans (evolves_of_eq ?_ hledger)) ?_ fun _ _ => ?_
        · rw [nodes_step, hact]
        · rw [calls_step, hact]
          rfl
        · rw [hledger]
    | some m =>
        rw [hb] at hact
        let callee : Task := .forwardMessage (Cluster.forwardRequest req target) .checkPartition
        have hnodes : (s.step (.forward a i b)).cluster.nodes =
            (s.wait a n i req target).cluster.nodes.set b (m.spawn callee) := by
          rw [nodes_step, hact]
          rfl
        have hlast : Evolves total (Answerable total s.cluster) (s.wait a n i req target)
            (s.step (.forward a i b)) := by
          apply evolves_setNode hb hnodes (fun b' _ => congrFun hledger b')
          rw [hledger]
          exact nodeStep_spawn (x := callee) (Or.inr trivial) rfl _
        have hcalls : (s.step (.forward a i b)).cluster.calls =
            s.cluster.calls ++ [⟨a, i, b, m.tasks.length⟩] := by
          rw [calls_step, hact]
        refine h.evolve (hmid.trans hlast) _ hcalls ?_ ?_ ?_ (fun _ _ => by rw [hledger])
          fun a' n' t hn' hP => hP n' hn'
        · intro call hcall
          rw [List.mem_singleton.mp hcall]
          refine linked_of_wait (m := m.spawn callee) hn hi
            ((h.books a n hn).placed _ (List.mem_of_getElem? hi)) hlast ?_
            List.getElem?_concat_length
          rw [hnodes]
          exact List.getElem?_set_self (List.getElem?_eq_some_iff.mp hb).1
        · intro call hcall call' hcall'
          rw [List.mem_singleton.mp hcall]
          exact h.fresh_of_forward hn hi hcall'
        · intro call hcall call' hcall'
          rw [List.mem_singleton.mp hcall, List.mem_singleton.mp hcall']
  · apply h.idle (fun _ => rfl)
    simp only [Cluster.act, Cluster.forward]
    split
    · rfl
    · rename_i n hn
      split
      · rename_i req target hi
        exact absurd ⟨n, req, target, hn, hi⟩ hwaits
      · rfl

end Forward

/-- **Step lemma.** -/
theorem Inv.step (h : s.Inv total) (label : ClusterLabel) : (s.step label).Inv total := by
  cases label with
  | node a label => exact h.node a label
  | forward a i b => exact h.forward a i b
  | unreachable a i => exact h.unreachable a i
  | reply call fresh => exact h.reply call fresh
  | restart a => exact h.restart a

/-- Whatever the tables say, some broker is called or none. -/
theorem Inv.routedStep (h : s.Inv total) (parse : String → Option IpAddr) (label : RoutedLabel) :
    (s.routedStep parse label).Inv total := by
  cases label with
  | node a label => exact h.step _
  | route a i tables listening =>
      simp only [Audit.routedStep]
      split
      · split
        · exact h.step _
        · exact h.step _
      · exact h
  | fail a i => exact h.step _
  | reply call fresh => exact h.step _
  | restart a => exact h.step _

theorem inv_start {brokers : List (UInt32 × UInt32 × (String → Log))}
    (hshared : ∀ broker ∈ brokers, broker.2.1 = total) : (start brokers).Inv total := by
  have hnode : ∀ (b : Nat) (n : Node), (start brokers).cluster.nodes[b]? = some n →
      ∃ partitionId recovered, n = Node.start partitionId total recovered := by
    intro b n hn
    obtain ⟨broker, hbroker, rfl⟩ := List.mem_map.mp (List.mem_of_getElem? hn)
    exact ⟨broker.1, broker.2.2, by rw [hshared broker hbroker]⟩
  constructor
  · intro b n hn
    obtain ⟨partitionId, recovered, rfl⟩ := hnode b n hn
    exact Node.books_start partitionId total recovered
  · intro b n hn
    obtain ⟨partitionId, recovered, rfl⟩ := hnode b n hn
    exact Node.filed_start partitionId total recovered
  · intro b _
    rfl
  · rintro call ⟨⟩
  · rintro call ⟨⟩
  · intro a n t r hn hr
    obtain ⟨partitionId, recovered, rfl⟩ := hnode a n hn
    cases hr

/-! ### Messages are where they belong -/

variable {b : Nat} {t : Tagged} {req : PublishRequest} {call : ForwardCall}

@[simp]
theorem targetPartition_forwardRequest (req : PublishRequest) (targetPartition : UInt32) :
    (Cluster.forwardRequest req targetPartition).targetPartition.toUInt32 = targetPartition := by
  simp [Cluster.forwardRequest]

/-- What has left a trace is in the ledger, and belongs to a task that is at home. -/
theorem Inv.taken_of_occurs (h : s.Inv total) (hoccurs : s.Occurs b t) :
    ∃ m x, s.cluster.nodes[b]? = some m ∧ m.tasks[t.tag]? = some x ∧
      x.message t.tag = some t ∧ x.AtHome total m.broker.partitionId := by
  have hmem : t ∈ s.ledger b := by
    rcases hoccurs with hmem | ⟨m, hm, htrace⟩
    · exact hmem
    · have haccount := (h.books b m hm).account t
      have htrace' : 0 < m.batcher.pending.count t ∨ 0 < m.storedMessages.count t := by
        rw [List.count_pos_iff, List.count_pos_iff]
        exact htrace
      exact List.count_pos_iff.mp (by omega)
  cases hm : s.cluster.nodes[b]? with
  | none =>
      rw [h.absent b hm] at hmem
      cases hmem
  | some m =>
      obtain ⟨x, hx, hmessage, -, hhome⟩ := (h.books b m hm).taken t hmem
      exact ⟨m, x, rfl, hx, hmessage, hhome⟩

/-- The two ends of a call. -/
theorem Inv.ends (h : s.Inv total) (hcall : call ∈ s.cluster.calls)
    (hpub : s.Publishes call.origin call.task req) :
    ∃ n m phase, s.cluster.nodes[call.origin]? = some n ∧
      partitionOf total req.key ≠ n.broker.partitionId ∧
      s.cluster.nodes[call.target]? = some m ∧ m.tasks[call.callee]? = some
        (.forwardMessage (Cluster.forwardRequest req (partitionOf total req.key)) phase) := by
  obtain ⟨n, phase, hn, hx⟩ := hpub
  obtain ⟨n', x, req', m, y, hn', hx', hreq, -, hother, hm, hy, hforward⟩ := h.linked call hcall
  rw [hn] at hn'
  cases hn'
  rw [hx] at hx'
  cases hx'
  cases hreq
  cases y with
  | flusher drain => cases hforward
  | publish req' phase' => cases hforward
  | consume req' phase' => cases hforward
  | forwardMessage forwardReq phase' =>
      cases hforward
      exact ⟨n, m, phase', hn, hother, hm, hy⟩

/-- What a call of `publish` causes without another broker is at home there. -/
theorem Inv.home_of_occurs (h : s.Inv total) (hpub : s.Publishes a i req)
    (hoccurs : s.Occurs a ⟨i, req⟩) (hn : s.cluster.nodes[a]? = some n) :
    n.broker.partitionId = partitionOf total req.key := by
  obtain ⟨n', phase, hn', hx⟩ := hpub
  obtain ⟨m, y, hm, hy, -, hhome⟩ := h.taken_of_occurs hoccurs
  rw [hn] at hn' hm
  cases hn'
  cases hm
  rw [hx] at hy
  cases hy
  exact hhome.symm

/-- What a call causes on the broker that was called is the message of the new task,
and at home there. -/
theorem Inv.home_of_call (h : s.Inv total) (hcall : call ∈ s.cluster.calls)
    (hpub : s.Publishes call.origin call.task req) (hcallee : call.callee = t.tag)
    (hoccurs : s.Occurs call.target t) :
    t = ⟨call.callee, (Cluster.forwardRequest req (partitionOf total req.key)).message⟩ ∧
      ∀ m, s.cluster.nodes[call.target]? = some m →
        m.broker.partitionId = partitionOf total req.key := by
  obtain ⟨n, m, phase, -, -, hm, hy⟩ := h.ends hcall hpub
  obtain ⟨m', y, hm', hy', hmessage, hhome⟩ := h.taken_of_occurs hoccurs
  rw [hm] at hm'
  cases hm'
  rw [← hcallee, hy] at hy'
  cases hy'
  refine ⟨?_, fun m' hm' => ?_⟩
  · rw [hcallee]
    exact (Option.some.inj hmessage).symm
  · rw [hm] at hm'
    cases hm'
    exact hhome.symm.trans (targetPartition_forwardRequest req _)

/-- **What a call of `publish` causes, it causes on a broker of the partition.** -/
theorem Inv.home_of_carries (h : s.Inv total) (hpub : s.Publishes a i req)
    (hcarries : s.cluster.Carries a ⟨i, req⟩ b t) (hoccurs : s.Occurs b t)
    (hm : s.cluster.nodes[b]? = some n) : n.broker.partitionId = partitionOf total req.key := by
  rcases hcarries with ⟨rfl, rfl⟩ | ⟨call, hcall, rfl, rfl, rfl, hcallee⟩
  · exact h.home_of_occurs hpub hoccurs hm
  · exact (h.home_of_call hcall hpub hcallee hoccurs).2 n hm

/-- What has been forwarded was not taken in by the broker that has forwarded it. -/
theorem Inv.not_occurs_of_call (h : s.Inv total) (hcall : call ∈ s.cluster.calls)
    (hpub : s.Publishes call.origin call.task req) : ¬ s.Occurs call.origin ⟨call.task, req⟩ := by
  intro hoccurs
  obtain ⟨n, m, phase, hn, hother, -⟩ := h.ends hcall hpub
  exact hother (h.home_of_occurs hpub hoccurs hn).symm

/-- **All that a call of `publish` causes is one message on one broker.** -/
theorem Inv.carries_unique (h : s.Inv total) (hpub : s.Publishes a i req) {b' : Nat} {t' : Tagged}
    (hcarries : s.cluster.Carries a ⟨i, req⟩ b t) (hoccurs : s.Occurs b t)
    (hcarries' : s.cluster.Carries a ⟨i, req⟩ b' t') (hoccurs' : s.Occurs b' t') :
    b = b' ∧ t = t' := by
  rcases hcarries with ⟨rfl, rfl⟩ | ⟨call, hcall, rfl, rfl, rfl, hcallee⟩
  · rcases hcarries' with ⟨rfl, rfl⟩ | ⟨call', hcall', rfl, rfl, rfl, hcallee'⟩
    · exact ⟨rfl, rfl⟩
    · exact absurd hoccurs (h.not_occurs_of_call hcall' hpub)
  · rcases hcarries' with ⟨rfl, rfl⟩ | ⟨call', hcall', horigin, htask, rfl, hcallee'⟩
    · exact absurd hoccurs' (h.not_occurs_of_call hcall hpub)
    · obtain rfl : call = call' := h.unique call hcall call' hcall' horigin.symm htask.symm
      refine ⟨rfl, ?_⟩
      rw [(h.home_of_call hcall hpub hcallee hoccurs).1,
        (h.home_of_call hcall hpub hcallee' hoccurs').1]

/-- **A broker that was called by mistake refuses**, or it has not looked yet. -/
theorem Inv.refused (h : s.Inv total) (hcall : call ∈ s.cluster.calls)
    (hmis : s.Misrouted total call req) :
    ∃ m phase, s.cluster.nodes[call.target]? = some m ∧
      m.broker.partitionId ≠ partitionOf total req.key ∧
      m.tasks[call.callee]? = some
        (.forwardMessage (Cluster.forwardRequest req (partitionOf total req.key)) phase) ∧
      phase.Refused m.broker.partitionId
        (Cluster.forwardRequest req (partitionOf total req.key)) := by
  obtain ⟨hpub, m, hm, hwrong⟩ := hmis
  obtain ⟨n, m', phase, -, -, hm', hy⟩ := h.ends hcall hpub
  rw [hm] at hm'
  cases hm'
  refine ⟨m, phase, hm, hwrong, hy, ?_⟩
  rcases (h.books _ m hm).placed _ (List.mem_of_getElem? hy) with hhome | hrefused
  · rw [targetPartition_forwardRequest] at hhome
    exact absurd hhome.symm hwrong
  · exact hrefused

/-- **Then nothing is stored.** -/
theorem Inv.not_occurs_of_misrouted (h : s.Inv total) (hcall : call ∈ s.cluster.calls)
    (hmis : s.Misrouted total call req)
    (hcarries : s.cluster.Carries call.origin ⟨call.task, req⟩ b t) : ¬ s.Occurs b t := by
  obtain ⟨hpub, m, hm, hwrong⟩ := hmis
  intro hoccurs
  rcases hcarries with ⟨rfl, rfl⟩ | ⟨call', hcall', horigin, htask, rfl, hcallee⟩
  · exact h.not_occurs_of_call hcall hpub hoccurs
  · obtain rfl : call' = call := h.unique call' hcall' call hcall horigin htask
    exact hwrong ((h.home_of_call hcall hpub hcallee hoccurs).2 m hm)

/-- **And there is no answer with success.** -/
theorem Inv.not_answered_of_misrouted (h : s.Inv total) (hcall : call ∈ s.cluster.calls)
    (hmis : s.Misrouted total call req) {r : PublishResponse}
    (hn : s.cluster.nodes[call.origin]? = some n) (hr : (t, r) ∈ n.responses) :
    t.tag ≠ call.task := by
  obtain ⟨hpub, m, hm, hwrong⟩ := hmis
  intro htag
  obtain ⟨n', m', phase, hn', hother, -⟩ := h.ends hcall hpub
  rw [hn] at hn'
  cases hn'
  obtain ⟨⟨x, hx, hreq⟩, hwhy⟩ := h.answered _ n t r hn hr
  -- the answer is to the request that was forwarded
  obtain ⟨n', phase', hn', hx'⟩ := hpub
  rw [hn] at hn'
  cases hn'
  rw [htag, hx'] at hx
  cases hx
  cases hreq
  rcases hwhy with hhome | ⟨call', hcall', horigin, htask, m'', hm'', hpartition⟩
  · exact hother hhome
  · obtain rfl : call' = call := h.unique call' hcall' call hcall horigin (htask.trans htag)
    rw [hm] at hm''
    cases hm''
    exact hwrong hpartition

/-- A broker that was called by mistake refuses when it looks, and changes nothing
else. -/
theorem step_refused {forwardReq : ForwardMessageRequest} {phase : ForwardPhase}
    (hi : n.tasks[i]? = some (.forwardMessage forwardReq phase))
    (hwrong : forwardReq.targetPartition.toUInt32 ≠ n.broker.partitionId)
    (hrefused : phase.Refused n.broker.partitionId forwardReq) (hlost : phase ≠ .lost)
    (env : StepEnv) :
    n.step (.task i env) =
      { n with
        tasks := n.tasks.set i (.forwardMessage forwardReq
          (.returned (.error (forwardReq.wrongPartition n.broker.partitionId)))) } := by
  cases phase with
  | checkPartition =>
      simp only [Node.step, hi, Node.stepTask, Node.stepForward, if_pos hwrong]
      rfl
  | ensureTopic => cases hrefused
  | direct direct => cases hrefused
  | returned result =>
      have hresult : result = .error (forwardReq.wrongPartition n.broker.partitionId) := hrefused
      simp only [Node.step, hi, Node.stepTask, Node.stepForward, hresult]
  | lost => exact absurd rfl hlost

/-- In the cluster, too, nothing changes but this task. -/
theorem cluster_refused {m : Node} {forwardReq : ForwardMessageRequest} {phase : ForwardPhase}
    (hm : s.cluster.nodes[b]? = some m)
    (hi : m.tasks[i]? = some (.forwardMessage forwardReq phase))
    (hwrong : forwardReq.targetPartition.toUInt32 ≠ m.broker.partitionId)
    (hrefused : phase.Refused m.broker.partitionId forwardReq) (hlost : phase ≠ .lost)
    (env : StepEnv) :
    (s.step (.node b (.task i env))).cluster.calls = s.cluster.calls ∧
      (s.step (.node b (.task i env))).cluster.nodes =
        s.cluster.nodes.set b
          { m with
            tasks := m.tasks.set i (.forwardMessage forwardReq
              (.returned (.error (forwardReq.wrongPartition m.broker.partitionId)))) } := by
  rw [calls_step, nodes_step]
  simp only [Cluster.act, hm, step_refused hi hwrong hrefused hlost env]
  exact ⟨rfl, rfl⟩

/-- **The refusal arrives as an error**, as soon as the broker that was called has
looked. -/
theorem Inv.returns (h : s.Inv total) (hcall : call ∈ s.cluster.calls)
    (hmis : s.Misrouted total call req) {targetPartition : UInt32} {m : Node}
    {forwardReq : ForwardMessageRequest} {phase : ForwardPhase}
    (hn : s.cluster.nodes[call.origin]? = some n)
    (hx : n.tasks[call.task]? = some (.publish req (.forwarded targetPartition)))
    (hm : s.cluster.nodes[call.target]? = some m)
    (hy : m.tasks[call.callee]? = some (.forwardMessage forwardReq phase)) (hlost : phase ≠ .lost)
    (env : StepEnv) (fresh : Fresh) :
    ∃ n', ((s.step (.node call.target (.task call.callee env))).step
        (.reply call fresh)).cluster.nodes[call.origin]? = some n' ∧
      n'.tasks[call.task]? = some (.publish req .returned) ∧ n'.responses = n.responses := by
  obtain ⟨m', phase', hm', hwrong, hy', hrefused⟩ := h.refused hcall hmis
  rw [hm] at hm'
  cases hm'
  rw [hy] at hy'
  cases hy'
  let forwardReq := Cluster.forwardRequest req (partitionOf total req.key)
  let message := forwardReq.wrongPartition m.broker.partitionId
  let refusing : Node :=
    { m with
      tasks := m.tasks.set call.callee (.forwardMessage forwardReq (.returned (.error message))) }
  have hother : forwardReq.targetPartition.toUInt32 ≠ m.broker.partitionId := by
    rw [targetPartition_forwardRequest]
    exact Ne.symm hwrong
  obtain ⟨hcalls, hnodes⟩ := cluster_refused hm hy hother hrefused hlost env
  generalize s.step (.node call.target (.task call.callee env)) = s' at hcalls hnodes ⊢
  have hrefusing : s'.cluster.nodes[call.target]? = some refusing := by
    rw [hnodes]
    exact List.getElem?_set_self (List.getElem?_eq_some_iff.mp hm).1
  -- the task that called waits still, also if the broker has called itself
  obtain ⟨n', hn', hx', hresponses⟩ : ∃ n', s'.cluster.nodes[call.origin]? = some n' ∧
      n'.tasks[call.task]? = some (.publish req (.forwarded targetPartition)) ∧
      n'.responses = n.responses := by
    by_cases hself : call.origin = call.target
    · rw [hself, hm] at hn
      cases hn
      have htask : call.callee ≠ call.task := by
        intro heq
        rw [heq, hx] at hy
        cases hy
      refine ⟨refusing, hself ▸ hrefusing, ?_, rfl⟩
      exact (List.getElem?_set_ne htask).trans hx
    · refine ⟨n, ?_, hx, rfl⟩
      rw [hnodes, List.getElem?_set_ne (Ne.symm hself)]
      exact hn
  have hresult : s'.cluster.result? call = some (.error message) := by
    have hcallee : refusing.tasks[call.callee]? =
        some (.forwardMessage forwardReq (.returned (.error message))) :=
      List.getElem?_set_self (List.getElem?_eq_some_iff.mp hy).1
    simp only [Cluster.result?, hrefusing, Option.bind_some, hcallee]
  have hreply := act_reply_error (hcalls ▸ hcall) hn' hx' hresult fresh
  refine ⟨{ n' with tasks := n'.tasks.set call.task (.publish req .returned) }, ?_, ?_, hresponses⟩
  · rw [nodes_step, hreply]
    exact List.getElem?_set_self (List.getElem?_eq_some_iff.mp hn').1
  · exact List.getElem?_set_self (List.getElem?_eq_some_iff.mp hx').1

theorem partitionOf_lt (hn : 0 < total) (key : String) : partitionOf total key < total :=
  UInt32.mod_lt _ hn

/-- **The invariant says that messages are where they belong.** -/
theorem Inv.routed (h : s.Inv total) (hn : 0 < total) : s.Routed total where
  home a i req b t m hpub hcarries hoccurs hm :=
    ⟨h.home_of_carries hpub hcarries hoccurs hm, partitionOf_lt hn req.key⟩
  filed a i req b t m offset hpub hcarries hm hstored := by
    have hmessage : t ∈ m.storedMessages := List.mem_map.mpr ⟨_, hstored, rfl⟩
    have hhome := h.home_of_carries hpub hcarries (.inr ⟨m, hm, .inr hmessage⟩) hm
    have hfiled := h.filed b m hm
    refine ⟨fun topic partition hlog => ?_, hfiled.found _ hstored⟩
    rw [(hfiled.own topic partition hlog).1, Broker.partition, hhome]
  once a i req b t b' t' hpub hcarries hoccurs hcarries' hoccurs' :=
    h.carries_unique hpub hcarries hoccurs hcarries' hoccurs'
  ledger b m t hm := by
    have hbooks := h.books b m hm
    have hone := List.nodup_iff_count_le_one.mp hbooks.nodup t
    have haccount := hbooks.account t
    exact ⟨hone, by omega⟩
  notLocal a i n req targetPartition hn hi := by
    obtain ⟨-, hother⟩ := (h.books a n hn).placed _ (List.mem_of_getElem? hi)
    simp [Node.handlesLocally, Ne.symm hother]
  refused call hcall req hmis := by
    obtain ⟨m, phase, hm, -, hy, hrefused⟩ := h.refused hcall hmis
    exact ⟨m, phase, hm, hy, hrefused⟩
  nothing call hcall req hmis :=
    ⟨fun b t hcarries => h.not_occurs_of_misrouted hcall hmis hcarries,
      fun n t r hn hr => h.not_answered_of_misrouted hcall hmis hn hr⟩
  returns call hcall req hmis n targetPartition m forwardReq phase env fresh hn hx hm hy hlost :=
    h.returns hcall hmis hn hx hm hy hlost env fresh

/-- **Messages reach only the partition of their key.**  In every run of brokers that
share the number of partitions, whatever partitions they have, whatever their
tables and their configurations say and whoever listens at the addresses, messages
are where they belong. -/
theorem routed_always (parse : String → Option IpAddr)
    (brokers : List (UInt32 × UInt32 × (String → Log))) (total : UInt32) (hn : 0 < total)
    (hshared : ∀ broker ∈ brokers, broker.2.1 = total) (labels : List RoutedLabel) :
    Always (routedStep parse) (Routed total) (start brokers) labels := by
  have hinv : Always (routedStep parse) (Inv total) (start brokers) labels :=
    .of_along (inv_start hshared) (.of_forall fun _ _ => trivial) fun s label h (_ : True) =>
      h.routedStep parse label
  exact hinv.mono fun s h => h.routed hn

/-- Of these brokers the middle one has the partition of `Broker.hiRequest`. -/
def threeBrokers : List (UInt32 × UInt32 × (String → Log)) :=
  [(0, 2, fun _ => []), (1, 2, fun _ => []), (0, 2, fun _ => [])]

/-- The first broker believes that partition one is with the third broker. -/
def staleTables : Tables where
  attempts _ := some (MeshTopology.new.addNode (.new ⟨"c"⟩ (.v4 0x7f000001 3) 1 2 .unixEpoch))
  synced := none
  brokers := []
  now := .unixEpoch

/-- Or it has no mesh, and finds the second broker in its configuration. -/
def configuredTables : Tables where
  attempts _ := none
  synced := none
  brokers := [⟨"a", "a.example", 1, 0, 2, true⟩, ⟨"b", "b.example", 2, 1, 2, true⟩]
  now := .unixEpoch

/-- The brokers listen at these ports. -/
def listening : SocketAddr → Option Nat
  | .v4 _ port => if 0 < port ∧ port ≤ 3 then some (port.toNat - 1) else none
  | .v6 _ _ _ _ => none

/-- A request is sent to the third broker, which refuses it, and once more to the
second one. -/
def publishTwice : List RoutedLabel :=
  [.node 0 (.publish Broker.hiRequest), .route 0 1 staleTables listening,
    .node 2 (.task 1 (PublishState.stepAt 0)), .reply ⟨0, 1, 2, 1⟩ ⟨"0", .unixEpoch⟩,
    .node 0 (.publish Broker.hiRequest), .route 0 2 configuredTables listening] ++
  List.replicate 6 (.node 1 (.task 1 (PublishState.stepAt 0))) ++
  [.reply ⟨0, 2, 1, 1⟩ ⟨"1", .unixEpoch⟩]

/-- The first attempt leaves nothing, and the second one is stored and answered. -/
theorem publishTwice_routed_always :
    (∀ broker ∈ threeBrokers, broker.2.1 = 2) ∧
      (publishTwice.foldl (routedStep fun _ => none) (start threeBrokers)).cluster.calls =
        [⟨0, 1, 2, 1⟩, ⟨0, 2, 1, 1⟩] ∧
      (List.range 3).map (fun b => ((publishTwice.foldl (routedStep fun _ => none)
        (start threeBrokers)).ledger b).map Tagged.tag) = [[], [1], []] ∧
      (publishTwice.foldl (routedStep fun _ => none)
        (start threeBrokers)).cluster.nodes.map Cluster.storedOffsets = [[], [(1, 0)], []] ∧
      (publishTwice.foldl (routedStep fun _ => none)
        (start threeBrokers)).cluster.nodes.map Cluster.answeredOffsets = [[(2, 0)], [], []] ∧
      Always (routedStep fun _ => none) (Routed 2) (start threeBrokers) publishTwice :=
  ⟨by decide +kernel, by decide +kernel, by decide +kernel, by decide +kernel, by decide +kernel,
    routed_always (fun _ => none) threeBrokers 2 (by decide) (by decide +kernel) publishTwice⟩

end Audit

end Rafka
