/-
Rafka/Mesh.lean

The peer-to-peer mesh (`crates/core/src/p2p_mesh.rs`).

A `MeshTopology` keeps two maps that ought to agree: `nodes` has the record of
every known node, with the partition it announced, and `partitions` names the
owner of each partition.  Gossip messages, the cleanup of stale nodes and the
node's own departure change one map, the other, or both.

A mesh draws two ids: `node_id`, which it signs its messages with and which it
registers as the owner of its partition, and the id inside `node_info`, under
which its record is kept.

Machine arithmetic is checked: the age of a record from the future panics.

Main result (`sound_always_iff`): the maps agree throughout a run exactly when
the two ids are the same, no announced node moves away from a partition that
it is the owner of, and every partition update names a known node of that
partition.
-/
import Rafka.HashMap
import Rafka.Time
import Rafka.Trace

namespace Rafka

/-! ### Nodes -/

/-- `NodeId`. -/
structure NodeId where
  name : String
deriving DecidableEq

/-- `IpAddr`. -/
inductive IpAddr
  | v4 (octets : BitVec 32)
  | v6 (segments : BitVec 128)
deriving DecidableEq

/-- `SocketAddr`. -/
inductive SocketAddr
  | v4 (ip : BitVec 32) (port : UInt16)
  | v6 (ip : BitVec 128) (port : UInt16) (flowinfo scopeId : UInt32)
deriving DecidableEq

/-- `Duration::as_secs` of the time since the epoch. -/
def unixSecs (now : EpochTime) : UInt64 := UInt64.ofNat (now.nanos / 10 ^ 9)

/-- `NodeInfo`. -/
structure NodeInfo where
  id : NodeId
  address : SocketAddr
  partitionId : UInt32
  totalPartitions : UInt32
  lastSeen : UInt64
  isAlive : Bool
  metadata : HashMap String String
deriving DecidableEq

namespace NodeInfo

/-- `NodeInfo::new`, which draws the id. -/
def new (id : NodeId) (address : SocketAddr) (partitionId totalPartitions : UInt32)
    (now : EpochTime) : NodeInfo where
  id := id
  address := address
  partitionId := partitionId
  totalPartitions := totalPartitions
  lastSeen := unixSecs now
  isAlive := true
  metadata := ∅

/-- `NodeInfo::update_last_seen`. -/
def updateLastSeen (node : NodeInfo) (now : EpochTime) : NodeInfo :=
  { node with lastSeen := unixSecs now, isAlive := true }

/-- `NodeInfo::is_stale`; the subtraction panics if the node was seen in the
future. -/
def isStale (node : NodeInfo) (timeout : Duration) (now : EpochTime) : Option Bool :=
  if unixSecs now < node.lastSeen then none
  else some (decide ((unixSecs now - node.lastSeen).toNat > timeout / 10 ^ 9))

end NodeInfo

/-! ### The topology -/

/-- `MeshTopology`, without the time of the last update. -/
structure MeshTopology where
  nodes : HashMap NodeId NodeInfo
  partitions : HashMap UInt32 NodeId
  connections : HashMap NodeId (Finset NodeId)
deriving DecidableEq

namespace MeshTopology

/-- `MeshTopology::new`. -/
def new : MeshTopology := ⟨∅, ∅, ∅⟩

/-- `MeshTopology::add_node`. -/
def addNode (t : MeshTopology) (node : NodeInfo) : MeshTopology :=
  { t with
    nodes := t.nodes.insert node.id node
    partitions := t.partitions.insert node.partitionId node.id }

/-- `MeshTopology::remove_node`: the partition of the removed node goes, whoever
owns it. -/
def removeNode (t : MeshTopology) (nodeId : NodeId) : MeshTopology :=
  match t.nodes.lookup nodeId with
  | some node =>
      { nodes := t.nodes.erase nodeId
        partitions := t.partitions.erase node.partitionId
        connections := HashMap.mapVals (fun _ connections => connections.erase nodeId)
          (t.connections.erase nodeId) }
  | none => t

/-- `MeshTopology::update_node`. -/
def updateNode (t : MeshTopology) (node : NodeInfo) : MeshTopology :=
  if node.id ∈ t.nodes then
    { t with
      nodes := t.nodes.insert node.id node
      partitions := t.partitions.insert node.partitionId node.id }
  else t

/-- `MeshTopology::get_node_for_partition`. -/
def getNodeForPartition (t : MeshTopology) (partitionId : UInt32) : Option NodeInfo :=
  (t.partitions.lookup partitionId).bind fun nodeId => t.nodes.lookup nodeId

end MeshTopology

/-! ### Gossip -/

/-- `GossipMessageType`. -/
inductive GossipMessageType
  | nodeJoin (nodeInfo : NodeInfo)
  | nodeLeave (nodeId : NodeId)
  | nodeUpdate (nodeInfo : NodeInfo)
  | heartbeat (nodeId : NodeId)
  | partitionUpdate (partitionId : UInt32) (owner : NodeId)
  | clusterState (nodes : List NodeInfo)

namespace GossipMessageType

/-- The message is a heartbeat of the node `n`. -/
def beats (n : NodeId) : GossipMessageType → Bool
  | .heartbeat nodeId => nodeId = n
  | _ => false

/-- The records that the message brings. -/
def records : GossipMessageType → List NodeInfo
  | .nodeJoin nodeInfo => [nodeInfo]
  | .nodeUpdate nodeInfo => [nodeInfo]
  | .clusterState nodes => nodes
  | _ => []

end GossipMessageType

/-- `GossipMessage`. -/
structure GossipMessage where
  fromNode : NodeId
  messageType : GossipMessageType
  timestamp : SystemTime
  ttl : UInt32

/-- What of a `P2PMesh` its messages touch.  `sent` records every call of
`gossip_tx.send`. -/
structure P2PMesh where
  nodeId : NodeId
  nodeInfo : NodeInfo
  topology : MeshTopology
  nodeTimeout : Duration
  sent : List GossipMessage

namespace P2PMesh

/-- `P2PMesh::new`, with the two ids that it draws. -/
def new (nodeId infoId : NodeId) (address : SocketAddr)
    (partitionId totalPartitions : UInt32) (nodeTimeout : Duration) (now : EpochTime) :
    P2PMesh where
  nodeId := nodeId
  nodeInfo := NodeInfo.new infoId address partitionId totalPartitions now
  topology := MeshTopology.new
  nodeTimeout := nodeTimeout
  sent := []

/-- What `P2PMesh::start` does to the topology before it starts its tasks. -/
def start (m : P2PMesh) : P2PMesh :=
  let topology := m.topology.addNode m.nodeInfo
  { m with
    topology :=
      { topology with
        partitions := topology.partitions.insert m.nodeInfo.partitionId m.nodeId } }

/-- `gossip_tx.send`. -/
def send (m : P2PMesh) (message : GossipMessage) : P2PMesh :=
  { m with sent := m.sent ++ [message] }

/-- `P2PMesh::announce_partition_ownership`. -/
def announcePartitionOwnership (m : P2PMesh) (now : SystemTime) : P2PMesh :=
  m.send
    { fromNode := m.nodeId
      messageType := .partitionUpdate m.nodeInfo.partitionId m.nodeId
      timestamp := now
      ttl := 3 }

/-- What the match of `process_gossip_message` does. -/
def receive (m : P2PMesh) (now : EpochTime) : GossipMessageType → P2PMesh
  | .nodeJoin nodeInfo =>
      announcePartitionOwnership { m with topology := m.topology.addNode nodeInfo }
        now.toSystemTime
  | .nodeLeave nodeId => { m with topology := m.topology.removeNode nodeId }
  | .nodeUpdate nodeInfo => { m with topology := m.topology.updateNode nodeInfo }
  | .heartbeat nodeId =>
      { m with
        topology :=
          { m.topology with
            nodes := HashMap.modify nodeId (fun node => node.updateLastSeen now)
              m.topology.nodes } }
  | .partitionUpdate partitionId owner =>
      { m with
        topology :=
          { m.topology with partitions := m.topology.partitions.insert partitionId owner } }
  | .clusterState nodes =>
      { m with
        topology := nodes.foldl
          (fun topology node => if node.id ≠ m.nodeId then topology.addNode node else topology)
          m.topology }

/-- `P2PMesh::process_gossip_message`. -/
def processGossipMessage (m : P2PMesh) (message : GossipMessage) (now : EpochTime) : P2PMesh :=
  if message.fromNode = m.nodeId then m
  else if message.ttl = 0 then m
  else
    let m := m.receive now message.messageType
    let forwardMessage := { message with ttl := message.ttl - 1, fromNode := m.nodeId }
    if forwardMessage.ttl > 0 then m.send forwardMessage else m

/-- A pass of the cleanup task.  The nodes are tested in the order `order`, each
with its own clock reading; a test that panics ends the task before anything
is removed. -/
def cleanup (m : P2PMesh) (order : List NodeId) (now : NodeId → EpochTime) : P2PMesh :=
  let values := (HashMap.iter order m.topology.nodes).map Prod.snd
  match values.mapM fun node => node.isStale m.nodeTimeout (now node.id) with
  | none => m
  | some stale =>
      let staleNodes := ((values.zip stale).filter Prod.snd).map fun entry => entry.1.id
      { m with topology := staleNodes.foldl MeshTopology.removeNode m.topology }

/-- `P2PMesh::leave_cluster`. -/
def leaveCluster (m : P2PMesh) (now : SystemTime) : P2PMesh :=
  let m := m.send
    { fromNode := m.nodeId
      messageType := .nodeLeave m.nodeId
      timestamp := now
      ttl := 5 }
  { m with topology := m.topology.removeNode m.nodeId }

end P2PMesh

/-- What can happen to a started mesh. -/
inductive MeshOp
  | gossip (message : GossipMessage) (now : EpochTime)
  | cleanup (order : List NodeId) (now : NodeId → EpochTime)
  | leaveCluster (now : SystemTime)

/-- One operation. -/
def P2PMesh.step (m : P2PMesh) : MeshOp → P2PMesh
  | .gossip message now => m.processGossipMessage message now
  | .cleanup order now => m.cleanup order now
  | .leaveCluster now => m.leaveCluster now

namespace MeshTopology

variable {t : MeshTopology}

/-! ### Agreement of the two maps -/

/-- The two maps agree. -/
structure Sound (t : MeshTopology) : Prop where
  owner : ∀ p n, t.partitions.lookup p = some n →
    ∃ node, t.nodes.lookup n = some node ∧ node.partitionId = p
  resolves : ∀ p, p ∈ t.partitions → (t.getNodeForPartition p).isSome

/-- Every owner is a known node of the partition. -/
def Owned (t : MeshTopology) : Prop :=
  ∀ p n, t.partitions.lookup p = some n →
    ∃ node, t.nodes.lookup n = some node ∧ node.partitionId = p

theorem sound_iff : t.Sound ↔ t.Owned := by
  constructor
  · intro h
    exact h.owner
  · intro h
    refine ⟨h, fun p hp => ?_⟩
    obtain ⟨n, hn⟩ := Finmap.mem_iff.mp hp
    obtain ⟨node, hnode, -⟩ := h p n hn
    rw [getNodeForPartition, hn, Option.bind_some, hnode]
    rfl

/-! ### Adding nodes -/

/-- The last of `nodes` with the id `n`. -/
def home (nodes : List NodeInfo) (n : NodeId) : Option NodeInfo :=
  nodes.reverse.find? fun node => node.id = n

/-- The id of the last of `nodes` on the partition `p`. -/
def claimant (nodes : List NodeInfo) (p : UInt32) : Option NodeId :=
  (nodes.reverse.find? fun node => node.partitionId = p).map NodeInfo.id

theorem lookup_nodes_foldl_addNode (nodes : List NodeInfo) (t : MeshTopology) (n : NodeId) :
    (nodes.foldl addNode t).nodes.lookup n = (home nodes n).or (t.nodes.lookup n) := by
  induction nodes using List.reverseRecOn with
  | nil => rfl
  | append_singleton nodes node ih =>
      rw [List.foldl_append, List.foldl_cons, List.foldl_nil, home, List.reverse_concat,
        List.find?_cons]
      show ((nodes.foldl addNode t).nodes.insert node.id node).lookup n = _
      rw [HashMap.lookup_insert_eq, ih]
      by_cases hn : n = node.id
      · simp [hn]
      · simp [hn, Ne.symm hn, home]

theorem lookup_partitions_foldl_addNode (nodes : List NodeInfo) (t : MeshTopology)
    (p : UInt32) :
    (nodes.foldl addNode t).partitions.lookup p =
      (claimant nodes p).or (t.partitions.lookup p) := by
  induction nodes using List.reverseRecOn with
  | nil => rfl
  | append_singleton nodes node ih =>
      rw [List.foldl_append, List.foldl_cons, List.foldl_nil, claimant, List.reverse_concat,
        List.find?_cons]
      show ((nodes.foldl addNode t).partitions.insert node.partitionId node.id).lookup p = _
      rw [HashMap.lookup_insert_eq, ih]
      by_cases hp : p = node.partitionId
      · simp [hp]
      · simp [hp, Ne.symm hp, claimant]

/-- A claimant has a record among the nodes. -/
theorem home_of_claimant {nodes : List NodeInfo} {p : UInt32} {n : NodeId}
    (h : claimant nodes p = some n) : ∃ node, home nodes n = some node := by
  obtain ⟨node, hfind, rfl⟩ := Option.map_eq_some_iff.mp h
  have hmem : node ∈ nodes.reverse := List.mem_of_find?_eq_some hfind
  have hsome : (home nodes node.id).isSome := List.find?_isSome.mpr ⟨node, hmem, by simp⟩
  exact Option.isSome_iff_exists.mp hsome

/-- No partition has an owner that is announced elsewhere: neither a claimant
among `nodes` nor, where there is none, its owner so far. -/
def Settles (t : MeshTopology) (nodes : List NodeInfo) : Prop :=
  ∀ p n, (claimant nodes p).or (t.partitions.lookup p) = some n →
    ∀ node, home nodes n = some node → node.partitionId = p

/-- Announced nodes keep the maps in agreement exactly when they settle. -/
theorem owned_foldl_addNode_iff {nodes : List NodeInfo} (h : t.Owned) :
    (nodes.foldl addNode t).Owned ↔ t.Settles nodes := by
  simp only [Owned, Settles, lookup_partitions_foldl_addNode, lookup_nodes_foldl_addNode]
  constructor
  · intro hafter p n hn node hnode
    obtain ⟨node', hnode', hp⟩ := hafter p n hn
    rw [hnode, Option.some_or] at hnode'
    cases hnode'
    exact hp
  · intro hsettles p n hn
    cases hhome : home nodes n with
    | some node => exact ⟨node, rfl, hsettles p n hn node hhome⟩
    | none =>
        -- an owner that is not announced owned the partition before
        cases hclaim : claimant nodes p with
        | some n' =>
            rw [hclaim, Option.some_or] at hn
            cases hn
            obtain ⟨node, hnode⟩ := home_of_claimant hclaim
            rw [hhome] at hnode
            cases hnode
        | none =>
            rw [hclaim, Option.none_or] at hn
            exact h p n hn

/-! ### Removing and refreshing nodes -/

theorem lookup_nodes_removeNode (t : MeshTopology) (x y : NodeId) :
    (t.removeNode x).nodes.lookup y = if y = x then none else t.nodes.lookup y := by
  unfold MeshTopology.removeNode
  cases hx : t.nodes.lookup x with
  | none => exact (HashMap.ite_lookup_eq hx).symm
  | some node => exact HashMap.lookup_erase_eq t.nodes x y

/-- A removed node takes its partition with it. -/
theorem Owned.removeNode (h : t.Owned) (nodeId : NodeId) : (t.removeNode nodeId).Owned := by
  unfold MeshTopology.removeNode
  cases hnode : t.nodes.lookup nodeId with
  | none => exact h
  | some node =>
      intro p n hn
      simp only [HashMap.lookup_erase_eq] at hn ⊢
      split at hn
      · cases hn
      · rename_i hp
        obtain ⟨owner, howner, hpartition⟩ := h p n hn
        have hne : n ≠ nodeId := by
          rintro rfl
          rw [hnode] at howner
          cases howner
          exact hp hpartition.symm
        exact ⟨owner, by rw [if_neg hne, howner], hpartition⟩

theorem Owned.foldl_removeNode (h : t.Owned) (nodeIds : List NodeId) :
    (nodeIds.foldl MeshTopology.removeNode t).Owned := by
  induction nodeIds generalizing t with
  | nil => exact h
  | cons nodeId nodeIds ih => exact ih (h.removeNode nodeId)

theorem Owned.heartbeat (h : t.Owned) (nodeId : NodeId) (now : EpochTime) :
    Owned { t with
      nodes := HashMap.modify nodeId (fun node => node.updateLastSeen now) t.nodes } := by
  intro p n hn
  obtain ⟨node, hnode, hp⟩ := h p n hn
  simp only [HashMap.lookup_modify, hnode, Option.map_some]
  split
  · exact ⟨_, rfl, hp⟩
  · exact ⟨node, rfl, hp⟩

/-- A partition update keeps the maps in agreement exactly when it names a known
node of the partition. -/
theorem owned_insert_iff {p : UInt32} {owner : NodeId} (h : t.Owned) :
    Owned { t with partitions := t.partitions.insert p owner } ↔
      ∃ node, t.nodes.lookup owner = some node ∧ node.partitionId = p := by
  constructor
  · intro hafter
    exact hafter p owner (Finmap.lookup_insert _)
  · rintro ⟨node, hnode, hp⟩ q n hn
    rw [HashMap.lookup_insert_eq] at hn
    split at hn
    · rename_i hq
      cases hn
      exact ⟨node, hnode, by rw [hp, hq]⟩
    · exact h q n hn

end MeshTopology

namespace P2PMesh

open MeshTopology

variable {m : P2PMesh}

/-! ### Steps of the mesh -/

/-- The cluster state is added without the node's own record. -/
theorem topology_clusterState (m : P2PMesh) (now : EpochTime) (nodes : List NodeInfo) :
    (m.receive now (.clusterState nodes)).topology =
      (nodes.filter fun node => node.id ≠ m.nodeId).foldl addNode m.topology := by
  rw [List.foldl_filter]
  simp only [receive, decide_eq_true_eq]

theorem topology_nodeUpdate (m : P2PMesh) (now : EpochTime) (node : NodeInfo) :
    (m.receive now (.nodeUpdate node)).topology =
      if node.id ∈ m.topology.nodes then [node].foldl addNode m.topology else m.topology := rfl

/-- The message fits the maps: no announced node moves away from a partition
that it owns, and a partition update names a known node of the partition. -/
def Fits (m : P2PMesh) : GossipMessageType → Prop
  | .nodeJoin node => m.topology.Settles [node]
  | .nodeLeave _ => True
  | .nodeUpdate node => node.id ∈ m.topology.nodes → m.topology.Settles [node]
  | .heartbeat _ => True
  | .partitionUpdate p owner =>
      ∃ node, m.topology.nodes.lookup owner = some node ∧ node.partitionId = p
  | .clusterState nodes =>
      m.topology.Settles (nodes.filter fun node => node.id ≠ m.nodeId)

/-- The message is not ignored. -/
def Accepts (m : P2PMesh) (message : GossipMessage) : Prop :=
  message.fromNode ≠ m.nodeId ∧ message.ttl ≠ 0

instance (m : P2PMesh) (message : GossipMessage) : Decidable (m.Accepts message) :=
  inferInstanceAs (Decidable (_ ∧ _))

/-- An operation that keeps the maps in agreement: every accepted message
fits. -/
def KeepsSound (m : P2PMesh) : MeshOp → Prop
  | .gossip message _ => m.Accepts message → m.Fits message.messageType
  | .cleanup _ _ => True
  | .leaveCluster _ => True

theorem owned_receive_iff (h : m.topology.Owned) (now : EpochTime)
    (messageType : GossipMessageType) :
    (m.receive now messageType).topology.Owned ↔ m.Fits messageType := by
  cases messageType with
  | nodeJoin node =>
      show ([node].foldl addNode m.topology).Owned ↔ _
      exact owned_foldl_addNode_iff h
  | nodeLeave nodeId => exact iff_of_true (h.removeNode nodeId) trivial
  | nodeUpdate node =>
      rw [topology_nodeUpdate]
      by_cases hknown : node.id ∈ m.topology.nodes
      · rw [if_pos hknown, owned_foldl_addNode_iff h]
        exact ⟨fun hsettles _ => hsettles, fun hfits => hfits hknown⟩
      · rw [if_neg hknown]
        exact iff_of_true h fun hmem => absurd hmem hknown
  | heartbeat nodeId => exact iff_of_true (h.heartbeat nodeId now) trivial
  | partitionUpdate p owner => exact owned_insert_iff h
  | clusterState nodes =>
      rw [topology_clusterState]
      exact owned_foldl_addNode_iff h

/-- What a message does to the topology. -/
theorem topology_processGossipMessage (m : P2PMesh) (message : GossipMessage)
    (now : EpochTime) :
    (m.Accepts message ∧ (m.processGossipMessage message now).topology =
        (m.receive now message.messageType).topology) ∨
      (¬ m.Accepts message ∧ m.processGossipMessage message now = m) := by
  unfold processGossipMessage
  by_cases hown : message.fromNode = m.nodeId
  · rw [if_pos hown]
    exact .inr ⟨fun h => h.1 hown, rfl⟩
  · by_cases hexpired : message.ttl = 0
    · rw [if_neg hown, if_pos hexpired]
      exact .inr ⟨fun h => h.2 hexpired, rfl⟩
    · rw [if_neg hown, if_neg hexpired]
      refine .inl ⟨⟨hown, hexpired⟩, ?_⟩
      -- forwarding the message leaves the topology
      simp only
      split <;> rfl

/-- A message leaves the ids and the timeout of the mesh. -/
theorem config_processGossipMessage (m : P2PMesh) (message : GossipMessage) (now : EpochTime) :
    (m.processGossipMessage message now).nodeId = m.nodeId ∧
      (m.processGossipMessage message now).nodeInfo = m.nodeInfo ∧
      (m.processGossipMessage message now).nodeTimeout = m.nodeTimeout := by
  have hreceive : (m.receive now message.messageType).nodeId = m.nodeId ∧
      (m.receive now message.messageType).nodeInfo = m.nodeInfo ∧
      (m.receive now message.messageType).nodeTimeout = m.nodeTimeout := by
    cases message.messageType <;> exact ⟨rfl, rfl, rfl⟩
  unfold processGossipMessage
  split
  · exact ⟨rfl, rfl, rfl⟩
  · split
    · exact ⟨rfl, rfl, rfl⟩
    · dsimp only
      split
      · exact hreceive
      · exact hreceive

theorem owned_cleanup (h : m.topology.Owned) (order : List NodeId)
    (now : NodeId → EpochTime) : (m.cleanup order now).topology.Owned := by
  unfold cleanup
  simp only
  split
  · exact h
  · exact h.foldl_removeNode _

/-- **Step lemma.**  From agreement, an operation keeps it exactly when every
accepted message fits. -/
theorem sound_step_iff (h : m.topology.Sound) (op : MeshOp) :
    (m.step op).topology.Sound ↔ m.KeepsSound op := by
  rw [sound_iff] at h ⊢
  cases op with
  | gossip message now =>
      show (m.processGossipMessage message now).topology.Owned ↔ _
      rcases topology_processGossipMessage m message now with ⟨haccepts, htop⟩ | ⟨hignored, hsame⟩
      · rw [htop, owned_receive_iff h]
        exact ⟨fun hfits _ => hfits, fun hkeeps => hkeeps haccepts⟩
      · rw [hsame]
        exact iff_of_true h fun haccepts => absurd haccepts hignored
  | cleanup order now => exact iff_of_true (owned_cleanup h order now) trivial
  | leaveCluster now => exact iff_of_true (h.removeNode m.nodeId) trivial

/-! ### The maps over a run -/

/-- Right after `start` the maps agree exactly when the mesh drew one id
twice. -/
theorem sound_start_iff (nodeId infoId : NodeId) (address : SocketAddr)
    (partitionId totalPartitions : UInt32) (nodeTimeout : Duration) (now : EpochTime) :
    (start (new nodeId infoId address partitionId totalPartitions nodeTimeout
      now)).topology.Sound ↔ nodeId = infoId := by
  let node := NodeInfo.new infoId address partitionId totalPartitions now
  have hadded : (MeshTopology.new.addNode node).Owned := by
    intro p n hn
    simp only [addNode, MeshTopology.new, HashMap.lookup_insert_eq, Finmap.lookup_empty] at hn ⊢
    split at hn
    · rename_i hp
      cases hn
      exact ⟨node, if_pos rfl, hp.symm⟩
    · cases hn
  rw [sound_iff]
  apply (owned_insert_iff hadded).trans
  simp only [addNode, MeshTopology.new, HashMap.lookup_insert_eq, Finmap.lookup_empty]
  constructor
  · rintro ⟨other, hother, -⟩
    split at hother
    · assumption
    · cases hother
  · intro hid
    exact ⟨node, if_pos hid, rfl⟩

/-- From `start` on, the two maps agree in every state of a run exactly when the
mesh drew one id twice and every accepted message fits. -/
theorem sound_always_iff (nodeId infoId : NodeId) (address : SocketAddr)
    (partitionId totalPartitions : UInt32) (nodeTimeout : Duration) (now : EpochTime)
    (ops : List MeshOp) :
    Always step (fun m => m.topology.Sound)
        (start (new nodeId infoId address partitionId totalPartitions nodeTimeout now)) ops ↔
      nodeId = infoId ∧
        Along step KeepsSound
          (start (new nodeId infoId address partitionId totalPartitions nodeTimeout now))
          ops := by
  have hstart := sound_start_iff nodeId infoId address partitionId totalPartitions nodeTimeout
    now
  generalize start (new nodeId infoId address partitionId totalPartitions nodeTimeout now) = m
    at hstart ⊢
  -- from a state with agreement the steps decide
  have hrun (h : m.topology.Sound) :
      Always step (fun m => m.topology.Sound) m ops ↔ Along step KeepsSound m ops :=
    always_iff_along (D := fun _ _ => True) (I := fun _ => True)
      (Along.of_forall fun _ _ => trivial) trivial h (fun _ _ _ _ => trivial)
      fun _ op _ _ hm => sound_step_iff hm op
  constructor
  · intro h
    exact ⟨hstart.mp h.head, (hrun h.head).mp h⟩
  · rintro ⟨hid, hsteps⟩
    exact (hrun (hstart.mpr hid)).mpr hsteps

/-- A broker at `127.0.0.1:50051` for partition 0 of one.  It does not resolve
its own partition right after `start`: the owner `a` is not the id `b` of its
record. -/
theorem own_partition_unresolved :
    let m := start (new ⟨"a"⟩ ⟨"b"⟩ (.v4 0x7f000001 50051) 0 1 (Duration.fromSecs 60)
      EpochTime.unixEpoch)
    m.topology.partitions.lookup 0 = some ⟨"a"⟩ ∧ m.topology.nodes.lookup ⟨"a"⟩ = none ∧
      m.topology.getNodeForPartition 0 = none ∧
      ¬ Always step (fun m => m.topology.Sound) m [] := by
  refine ⟨by decide, by decide, by decide, fun h => ?_⟩
  exact absurd ((sound_start_iff _ _ _ _ _ _ _).mp h.head) (by decide)

end P2PMesh

end Rafka
