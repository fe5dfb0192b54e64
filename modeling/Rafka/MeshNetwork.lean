/-
Rafka/MeshNetwork.lean

All meshes of a cluster together (`crates/core/src/p2p_mesh.rs`).

What a mesh knows of the others it has from their gossip and from their answers
to `get_mesh_topology`.  Gossip may arrive late, twice, out of order or never,
and an answer may be merged long after it was given.  Each mesh passes on what it
has heard, so an error in one topology would spread to all.

Here the meshes of a network run together, in any interleaving.  The RPC
`gossip_message` is not a part of it: it makes up its messages and does not pass
on those of a mesh.  Nor is `broadcast_message`, which nothing calls.

Main results: no mesh ever names an owner of a partition that was not created
with this partition, and no record of a node differs from that of the mesh it is
about (`authentic_always`); if ids are not drawn twice, every route leads to a
mesh that was created with the partition, and if there is one such mesh only, the
routes of all meshes lead to it (`routes_lead_home`).
-/
import Rafka.Heartbeat
import Rafka.MeshSync

namespace Rafka

/-! ### Networks -/

/-- What a mesh is created with, the two ids that it draws among it. -/
structure MeshParams where
  nodeId : NodeId
  infoId : NodeId
  address : SocketAddr
  partitionId : UInt32
  totalPartitions : UInt32
  nodeTimeout : Duration
  created : EpochTime

/-- The mesh before its `start`. -/
def MeshParams.create (p : MeshParams) : P2PMesh :=
  P2PMesh.new p.nodeId p.infoId p.address p.partitionId p.totalPartitions p.nodeTimeout p.created

namespace P2PMesh

/-- What `P2PMesh::join_cluster` sends. -/
def joinCluster (m : P2PMesh) (now now' : SystemTime) : P2PMesh :=
  (m.send (m.joinMessage now)).send
    { fromNode := m.nodeId
      messageType := .partitionUpdate m.nodeInfo.partitionId m.nodeId
      timestamp := now'
      ttl := 5 }

/-- A turn of the heartbeat task of `P2PMesh::start`. -/
def heartbeat (m : P2PMesh) (now : SystemTime) : P2PMesh := m.send (m.heartbeatMessage now)

end P2PMesh

/-- The meshes of a cluster, and the answers to `get_mesh_topology` so far. -/
structure MeshNetwork (ι : Type) where
  meshes : ι → P2PMesh
  answers : List GetMeshTopologyResponse

/-- What can happen in a network. -/
inductive NetworkOp (ι : Type)
  | start (i : ι)
  | joinCluster (i : ι) (now now' : SystemTime)
  | heartbeat (i : ι) (now : SystemTime)
  | announce (i : ι) (now : SystemTime)
  /-- The mesh `i` gets the `k`-th message that `j` has sent. -/
  | gossip (i j : ι) (k : Nat) (now : EpochTime)
  | cleanup (i : ι) (order : List NodeId) (now : NodeId → EpochTime)
  | leaveCluster (i : ι) (now : SystemTime)
  /-- The broker of `i` answers a request. -/
  | getMeshTopology (i : ι) (nodeOrder : List NodeId) (partitionOrder : List UInt32)
      (now : NodeId → EpochTime)
  /-- The synchronisation task of `i`, or its manual synchronisation, merges the
  `k`-th answer. -/
  | sync (i : ι) (k : Nat) (order : List Int32) (now : String → EpochTime)
  | requestClusterState (i : ι) (bootstrapAddr : SocketAddr) (k : Nat) (order : List Int32)
      (now : String → EpochTime)

namespace MeshNetwork

variable {ι : Type}

/-- Meshes that have been created and not started. -/
def create (params : ι → MeshParams) : MeshNetwork ι := ⟨fun i => (params i).create, []⟩

variable [DecidableEq ι]

/-- The mesh `i` becomes `m`. -/
def set (s : MeshNetwork ι) (i : ι) (m : P2PMesh) : MeshNetwork ι :=
  { s with meshes := Function.update s.meshes i m }

/-- The topology of the mesh `i` becomes `t`. -/
def setTopology (s : MeshNetwork ι) (i : ι) (t : MeshTopology) : MeshNetwork ι :=
  s.set i { s.meshes i with topology := t }

/-- One operation. -/
def step (s : MeshNetwork ι) : NetworkOp ι → MeshNetwork ι
  | .start i => s.set i (s.meshes i).start
  | .joinCluster i now now' => s.set i ((s.meshes i).joinCluster now now')
  | .heartbeat i now => s.set i ((s.meshes i).heartbeat now)
  | .announce i now => s.set i ((s.meshes i).announcePartitionOwnership now)
  | .gossip i j k now =>
      match (s.meshes j).sent[k]? with
      | some message => s.set i ((s.meshes i).processGossipMessage message now)
      | none => s
  | .cleanup i order now => s.set i ((s.meshes i).cleanup order now)
  | .leaveCluster i now => s.set i ((s.meshes i).leaveCluster now)
  | .getMeshTopology i nodeOrder partitionOrder now =>
      match (s.meshes i).topology.getMeshTopology IpAddr.display nodeOrder partitionOrder now with
      | some answer => { s with answers := s.answers ++ [answer] }
      | none => s
  | .sync i k order now =>
      match s.answers[k]? with
      | some answer => s.setTopology i
          ((s.meshes i).topology.merge SocketAddr.parse answer order now)
      | none => s
  | .requestClusterState i bootstrapAddr k order now =>
      match s.answers[k]? with
      | some answer => s.setTopology i
          ((s.meshes i).topology.requestClusterState SocketAddr.parse bootstrapAddr answer order
            now)
      | none => s

end MeshNetwork

/-! ### What is true of the meshes -/

section Authentic

variable {ι : Type} (params : ι → MeshParams)

/-- One of the meshes that were created with the partition `p` has drawn the id `n`. -/
def Claims (p : UInt32) (n : NodeId) : Prop :=
  ∃ j, (params j).partitionId = p ∧ (n = (params j).nodeId ∨ n = (params j).infoId)

/-- The record of the mesh `j`, as `NodeInfo::new` has made it, but for the time it was
last seen; an address that is not an IPv4 address may have got lost. -/
structure RecordOf (j : ι) (node : NodeInfo) : Prop where
  id : node.id = (params j).infoId
  address : (params j).address.isIpv4 = true → node.address = (params j).address
  partitionId : node.partitionId = (params j).partitionId
  totalPartitions : node.totalPartitions = (params j).totalPartitions
  isAlive : node.isAlive = true
  metadata : node.metadata = ∅

/-- The record is that of a mesh. -/
def Genuine (node : NodeInfo) : Prop := ∃ j, RecordOf params j node

/-- A topology that holds nothing made up. -/
structure AuthenticTopology (t : MeshTopology) : Prop where
  owners : ∀ p n, t.partitions.lookup p = some n → Claims params p n
  nodes : ∀ n node, t.nodes.lookup n = some node → node.id = n ∧ Genuine params node

/-- A message that holds nothing made up.  Nobody sends a `NodeUpdate` or a
`ClusterState`. -/
def AuthenticMessage : GossipMessageType → Prop
  | .nodeJoin node => Genuine params node
  | .nodeLeave n => ∃ j, n = (params j).nodeId
  | .heartbeat n => ∃ j, n = (params j).nodeId
  | .partitionUpdate p owner => Claims params p owner
  | .nodeUpdate _ | .clusterState _ => False

/-- An answer that holds nothing made up. -/
structure AuthenticAnswer (r : GetMeshTopologyResponse) : Prop where
  owners : ∀ k name, r.partitionOwners.lookup k = some name → Claims params k.toUInt32 ⟨name⟩
  nodes : ∀ remoteNode ∈ r.nodes, ∃ node now, Genuine params node ∧
    node.toMeshNodeInfo IpAddr.display now = some remoteNode

/-- A mesh that has the ids and the record it was created with, and neither knows nor has
sent anything made up. -/
structure AuthenticMesh (i : ι) (m : P2PMesh) : Prop where
  nodeId : m.nodeId = (params i).nodeId
  nodeInfo : m.nodeInfo = (params i).create.nodeInfo
  topology : AuthenticTopology params m.topology
  sent : ∀ message ∈ m.sent, AuthenticMessage params message.messageType

/-- Nothing in the network is made up. -/
structure AuthenticNetwork (s : MeshNetwork ι) : Prop where
  meshes : ∀ i, AuthenticMesh params i (s.meshes i)
  answers : ∀ r ∈ s.answers, AuthenticAnswer params r

variable {params} {t : MeshTopology} {node : NodeInfo} {m : P2PMesh} {i : ι}
variable {r : GetMeshTopologyResponse}

theorem recordOf_nodeInfo (i : ι) : RecordOf params i (params i).create.nodeInfo :=
  ⟨rfl, fun _ => rfl, rfl, rfl, rfl, rfl⟩

theorem claims_nodeId (i : ι) : Claims params (params i).partitionId (params i).nodeId :=
  ⟨i, rfl, .inl rfl⟩

/-- Who has a record is an owner of its partition. -/
theorem Genuine.claims (h : Genuine params node) : Claims params node.partitionId node.id := by
  obtain ⟨j, hj⟩ := h
  exact ⟨j, hj.partitionId.symm, .inr hj.id⟩

theorem Genuine.updateLastSeen (h : Genuine params node) (now : EpochTime) :
    Genuine params (node.updateLastSeen now) := by
  obtain ⟨j, hj⟩ := h
  exact ⟨j, hj.id, hj.address, hj.partitionId, hj.totalPartitions, rfl, hj.metadata⟩

/-! ### Topologies -/

namespace AuthenticTopology

theorem empty : AuthenticTopology params MeshTopology.new where
  owners := by
    rintro p n hn
    rw [MeshTopology.new, Finmap.lookup_empty] at hn
    cases hn
  nodes := by
    rintro n node hn
    rw [MeshTopology.new, Finmap.lookup_empty] at hn
    cases hn

theorem insertOwner (h : AuthenticTopology params t) {p : UInt32} {n : NodeId}
    (hclaims : Claims params p n) :
    AuthenticTopology params { t with partitions := t.partitions.insert p n } where
  owners := by
    intro p' n' hn'
    simp only [HashMap.lookup_insert_eq] at hn'
    split at hn'
    · rename_i hp
      cases hn'
      rwa [hp]
    · exact h.owners p' n' hn'
  nodes := h.nodes

theorem addNode (h : AuthenticTopology params t) (hnode : Genuine params node) :
    AuthenticTopology params (t.addNode node) where
  owners := (h.insertOwner hnode.claims).owners
  nodes := by
    intro n node' hnode'
    simp only [MeshTopology.addNode, HashMap.lookup_insert_eq] at hnode'
    split at hnode'
    · rename_i hn
      cases hnode'
      exact ⟨hn.symm, hnode⟩
    · exact h.nodes n node' hnode'

theorem removeNode (h : AuthenticTopology params t) (n : NodeId) :
    AuthenticTopology params (t.removeNode n) := by
  unfold MeshTopology.removeNode
  split
  · constructor
    · intro p n' hn'
      simp only [HashMap.lookup_erase_eq] at hn'
      split at hn'
      · cases hn'
      · exact h.owners p n' hn'
    · intro n' node hnode
      simp only [HashMap.lookup_erase_eq] at hnode
      split at hnode
      · cases hnode
      · exact h.nodes n' node hnode
  · exact h

theorem heartbeat (h : AuthenticTopology params t) (n : NodeId) (now : EpochTime) :
    AuthenticTopology params
      { t with nodes := HashMap.modify n (fun node => node.updateLastSeen now) t.nodes } where
  owners := h.owners
  nodes := by
    intro n' node hnode
    simp only [HashMap.lookup_modify] at hnode
    split at hnode
    · obtain ⟨node', hnode', rfl⟩ := Option.map_eq_some_iff.mp hnode
      obtain ⟨hid, hgenuine⟩ := h.nodes n' node' hnode'
      exact ⟨hid, hgenuine.updateLastSeen now⟩
    · exact h.nodes n' node hnode

theorem mergeNodes (h : AuthenticTopology params t) {nodes : List NodeInfo}
    (hnodes : ∀ node ∈ nodes, Genuine params node) :
    AuthenticTopology params (nodes.foldl MeshTopology.mergeNode t) := by
  apply List.foldlRecOn nodes _ h
  intro t ht node hmem
  unfold MeshTopology.mergeNode
  split
  · exact ht
  · exact ht.addNode (hnodes node hmem)

theorem mergeOwners (h : AuthenticTopology params t) (hr : AuthenticAnswer params r)
    (order : List Int32) :
    AuthenticTopology params
      ((HashMap.iter order r.partitionOwners).foldl MeshTopology.mergeOwner t) := by
  apply List.foldlRecOn _ _ h
  intro t ht entry hentry
  exact ht.insertOwner (hr.owners entry.1 entry.2 (HashMap.lookup_of_mem_iter hentry))

end AuthenticTopology

/-! ### Answers -/

/-- The record that a mesh makes of an answer is that of the same mesh, whatever it takes
for an address that it cannot read. -/
theorem genuine_rebuilt {remoteNode : MeshNodeInfo} {sentAt : EpochTime}
    (h : Genuine params node) (hsent : node.toMeshNodeInfo IpAddr.display sentAt = some remoteNode)
    (otherwise : SocketAddr) (now : EpochTime) :
    Genuine params { NodeInfo.ofRemote SocketAddr.parse remoteNode now with
      address := (SocketAddr.parse (remoteNode.address ++ ":" ++ toString remoteNode.port)).getD
        otherwise } := by
  obtain ⟨j, hj⟩ := h
  rw [NodeInfo.parse_of_sent hsent]
  have haddress : (params j).address.isIpv4 = true →
      (if node.address.isIpv4 then some node.address else none).getD otherwise =
        (params j).address := by
    intro hv4
    rw [hj.address hv4, if_pos hv4]
    rfl
  unfold NodeInfo.toMeshNodeInfo at hsent
  dsimp only at hsent
  split at hsent
  · cases hsent
    refine ⟨j, hj.id, haddress, ?_, ?_, hj.isAlive, hj.metadata⟩
    · show node.partitionId.toInt32.toUInt32 = _
      rw [UInt32.toUInt32_toInt32, hj.partitionId]
    · show node.totalPartitions.toInt32.toUInt32 = _
      rw [UInt32.toUInt32_toInt32, hj.totalPartitions]
  · cases hsent

theorem AuthenticTopology.merge (h : AuthenticTopology params t) (hr : AuthenticAnswer params r)
    (order : List Int32) (now : String → EpochTime) :
    AuthenticTopology params (t.merge SocketAddr.parse r order now) := by
  apply (h.mergeOwners hr order).mergeNodes
  intro node hnode
  obtain ⟨remoteNode, hmem, rfl⟩ := List.mem_map.mp hnode
  obtain ⟨node, sentAt, hgenuine, hsent⟩ := hr.nodes remoteNode hmem
  exact genuine_rebuilt hgenuine hsent SocketAddr.fallback (now remoteNode.nodeId)

theorem AuthenticTopology.requestClusterState (h : AuthenticTopology params t)
    (hr : AuthenticAnswer params r) (bootstrapAddr : SocketAddr) (order : List Int32)
    (now : String → EpochTime) :
    AuthenticTopology params
      (t.requestClusterState SocketAddr.parse bootstrapAddr r order now) := by
  refine (h.mergeNodes ?_).mergeOwners hr order
  intro node hnode
  obtain ⟨remoteNode, hmem, rfl⟩ := List.mem_map.mp hnode
  obtain ⟨node, sentAt, hgenuine, hsent⟩ := hr.nodes remoteNode hmem
  exact genuine_rebuilt hgenuine hsent bootstrapAddr (now remoteNode.nodeId)

theorem exists_of_mem_mapM {α β : Type} {f : α → Option β} {xs : List α} {ys : List β}
    (h : xs.mapM f = some ys) {y : β} (hy : y ∈ ys) : ∃ x ∈ xs, f x = some y := by
  induction xs generalizing ys with
  | nil =>
      cases h
      cases hy
  | cons x xs ih =>
      rw [List.mapM_cons] at h
      obtain ⟨y', hy', h⟩ := Option.bind_eq_some_iff.mp h
      obtain ⟨ys', hys', h⟩ := Option.bind_eq_some_iff.mp h
      cases h
      rcases List.mem_cons.mp hy with rfl | hmem
      · exact ⟨x, List.mem_cons_self, hy'⟩
      · obtain ⟨x', hx', hf⟩ := ih hys' hmem
        exact ⟨x', List.mem_cons_of_mem x hx', hf⟩

/-- A mesh answers with what it knows. -/
theorem AuthenticTopology.answer (h : AuthenticTopology params t) {nodeOrder : List NodeId}
    {partitionOrder : List UInt32} {now : NodeId → EpochTime}
    (hr : t.getMeshTopology IpAddr.display nodeOrder partitionOrder now = some r) :
    AuthenticAnswer params r := by
  obtain ⟨nodes, hnodes, hr⟩ := Option.bind_eq_some_iff.mp hr
  cases hr
  constructor
  · -- a partition id comes back from the wire as it was
    refine List.foldlRecOn (motive := fun owners : HashMap Int32 String => ∀ k name,
      owners.lookup k = some name → Claims params k.toUInt32 ⟨name⟩) _ _ ?_ ?_
    · intro k name hname
      rw [Finmap.lookup_empty] at hname
      cases hname
    · intro owners howners entry hentry k name hname
      rw [HashMap.lookup_insert_eq] at hname
      split at hname
      · rename_i hk
        cases hname
        rw [hk, UInt32.toUInt32_toInt32]
        exact h.owners entry.1 entry.2 (HashMap.lookup_of_mem_iter hentry)
      · exact howners k name hname
  · intro remoteNode hmem
    obtain ⟨entry, hentry, hsent⟩ := exists_of_mem_mapM hnodes hmem
    obtain ⟨-, hgenuine⟩ := h.nodes entry.1 entry.2 (HashMap.lookup_of_mem_iter hentry)
    exact ⟨entry.2, now entry.1, hgenuine, hsent⟩

/-! ### Meshes -/

namespace AuthenticMesh

theorem create (i : ι) : AuthenticMesh params i (params i).create :=
  ⟨rfl, rfl, .empty, by rintro message ⟨⟩⟩

theorem setTopology (h : AuthenticMesh params i m) (ht : AuthenticTopology params t) :
    AuthenticMesh params i { m with topology := t } :=
  ⟨h.nodeId, h.nodeInfo, ht, h.sent⟩

theorem send (h : AuthenticMesh params i m) {message : GossipMessage}
    (hmessage : AuthenticMessage params message.messageType) :
    AuthenticMesh params i (m.send message) := by
  refine ⟨h.nodeId, h.nodeInfo, h.topology, fun other hother => ?_⟩
  rcases List.mem_append.mp hother with hold | hnew
  · exact h.sent other hold
  · rw [List.mem_singleton.mp hnew]
    exact hmessage

/-- A mesh is an owner of its partition. -/
theorem claims (h : AuthenticMesh params i m) :
    Claims params m.nodeInfo.partitionId m.nodeId := by
  rw [h.nodeInfo, h.nodeId]
  exact claims_nodeId i

theorem genuine (h : AuthenticMesh params i m) : Genuine params m.nodeInfo := by
  rw [h.nodeInfo]
  exact ⟨i, recordOf_nodeInfo i⟩

theorem announce (h : AuthenticMesh params i m) (now : SystemTime) :
    AuthenticMesh params i (m.announcePartitionOwnership now) := h.send h.claims

theorem start (h : AuthenticMesh params i m) : AuthenticMesh params i m.start :=
  h.setTopology ((h.topology.addNode h.genuine).insertOwner h.claims)

theorem joinCluster (h : AuthenticMesh params i m) (now now' : SystemTime) :
    AuthenticMesh params i (m.joinCluster now now') := by
  have hjoined : AuthenticMesh params i (m.send (m.joinMessage now)) := h.send h.genuine
  exact hjoined.send h.claims

theorem receive (h : AuthenticMesh params i m) {messageType : GossipMessageType}
    (hmessage : AuthenticMessage params messageType) (now : EpochTime) :
    AuthenticMesh params i (m.receive now messageType) := by
  cases messageType with
  | nodeJoin node => exact (h.setTopology (h.topology.addNode hmessage)).announce _
  | nodeLeave n => exact h.setTopology (h.topology.removeNode n)
  | nodeUpdate node => cases hmessage
  | heartbeat n => exact h.setTopology (h.topology.heartbeat n now)
  | partitionUpdate p owner => exact h.setTopology (h.topology.insertOwner hmessage)
  | clusterState nodes => cases hmessage

theorem processGossipMessage (h : AuthenticMesh params i m) {message : GossipMessage}
    (hmessage : AuthenticMessage params message.messageType) (now : EpochTime) :
    AuthenticMesh params i (m.processGossipMessage message now) := by
  have hreceived := h.receive hmessage now
  unfold P2PMesh.processGossipMessage
  split
  · exact h
  · split
    · exact h
    · dsimp only
      -- what is forwarded says the same
      split
      · exact hreceived.send hmessage
      · exact hreceived

theorem cleanup (h : AuthenticMesh params i m) (order : List NodeId) (now : NodeId → EpochTime) :
    AuthenticMesh params i (m.cleanup order now) := by
  rcases P2PMesh.cleanup_cases m order now with ⟨hsame, -⟩ | ⟨ids, hremoved, -⟩
  · rwa [hsame]
  · rw [hremoved]
    apply h.setTopology
    exact List.foldlRecOn ids _ h.topology fun _ ht n _ => ht.removeNode n

theorem leaveCluster (h : AuthenticMesh params i m) (now : SystemTime) :
    AuthenticMesh params i (m.leaveCluster now) := by
  have hsent : AuthenticMesh params i
      (m.send
        { fromNode := m.nodeId, messageType := .nodeLeave m.nodeId, timestamp := now, ttl := 5 }) :=
    h.send ⟨i, h.nodeId⟩
  exact hsent.setTopology (h.topology.removeNode m.nodeId)

end AuthenticMesh

/-! ### Networks -/

namespace AuthenticNetwork

theorem create : AuthenticNetwork params (MeshNetwork.create params) :=
  ⟨AuthenticMesh.create, by rintro r ⟨⟩⟩

variable [DecidableEq ι] {s : MeshNetwork ι}

theorem set (h : AuthenticNetwork params s) (hm : AuthenticMesh params i m) :
    AuthenticNetwork params (s.set i m) := by
  refine ⟨fun j => ?_, h.answers⟩
  by_cases hj : j = i
  · subst hj
    show AuthenticMesh params j (Function.update s.meshes j m j)
    rwa [Function.update_self]
  · show AuthenticMesh params j (Function.update s.meshes i m j)
    rw [Function.update_of_ne hj]
    exact h.meshes j

/-- **Step lemma.** -/
theorem step (h : AuthenticNetwork params s) (op : NetworkOp ι) :
    AuthenticNetwork params (s.step op) := by
  cases op with
  | start i => exact h.set (h.meshes i).start
  | joinCluster i now now' => exact h.set ((h.meshes i).joinCluster now now')
  | heartbeat i now => exact h.set ((h.meshes i).send ⟨i, (h.meshes i).nodeId⟩)
  | announce i now => exact h.set ((h.meshes i).announce now)
  | gossip i j k now =>
      simp only [MeshNetwork.step]
      split
      · rename_i message hmessage
        have hsent := (h.meshes j).sent message (List.mem_of_getElem? hmessage)
        exact h.set ((h.meshes i).processGossipMessage hsent now)
      · exact h
  | cleanup i order now => exact h.set ((h.meshes i).cleanup order now)
  | leaveCluster i now => exact h.set ((h.meshes i).leaveCluster now)
  | getMeshTopology i nodeOrder partitionOrder now =>
      simp only [MeshNetwork.step]
      split
      · rename_i answer hanswer
        refine ⟨h.meshes, fun r hr => ?_⟩
        rcases List.mem_append.mp hr with hold | hnew
        · exact h.answers r hold
        · rw [List.mem_singleton.mp hnew]
          exact (h.meshes i).topology.answer hanswer
      · exact h
  | sync i k order now =>
      simp only [MeshNetwork.step]
      split
      · rename_i answer hanswer
        have hr := h.answers answer (List.mem_of_getElem? hanswer)
        exact h.set ((h.meshes i).setTopology ((h.meshes i).topology.merge hr order now))
      · exact h
  | requestClusterState i bootstrapAddr k order now =>
      simp only [MeshNetwork.step]
      split
      · rename_i answer hanswer
        have hr := h.answers answer (List.mem_of_getElem? hanswer)
        exact h.set ((h.meshes i).setTopology
          ((h.meshes i).topology.requestClusterState hr bootstrapAddr order now))
      · exact h

end AuthenticNetwork

end Authentic

namespace MeshNetwork

variable {ι : Type} [DecidableEq ι] {params : ι → MeshParams}

/-- The networks of all runs. -/
theorem authenticNetwork_always (params : ι → MeshParams) (ops : List (NetworkOp ι)) :
    Always step (AuthenticNetwork params) (create params) ops :=
  Always.of_along (C := fun _ _ => True) AuthenticNetwork.create
    (Along.of_forall fun _ _ => trivial) fun _ op h _ => h.step op

/-- **Nothing is made up**: in every network that meshes can get to by gossip and
synchronisation, whoever a mesh knows as the owner of a partition was created with it, and
every record is that of a mesh. -/
theorem authentic_always (params : ι → MeshParams) (ops : List (NetworkOp ι)) :
    Always step (fun s => ∀ i, AuthenticTopology params (s.meshes i).topology)
      (create params) ops :=
  (authenticNetwork_always params ops).mono fun _ h i => (h.meshes i).topology

/-- No id has been drawn for two meshes. -/
structure DistinctIds (params : ι → MeshParams) : Prop where
  infoId : ∀ i j, (params i).infoId = (params j).infoId → i = j
  nodeId : ∀ i j, (params i).nodeId = (params j).infoId → i = j

/-- Every route of a mesh leads to a mesh that was created with the partition; and if there
is one such mesh only, all meshes that have a route have the same. -/
structure RoutesLeadHome (params : ι → MeshParams) (s : MeshNetwork ι) : Prop where
  home : ∀ i p node, (s.meshes i).topology.getNodeForPartition p = some node →
    ∃ j, (params j).partitionId = p ∧ RecordOf params j node
  agree : ∀ i i' p node node',
    (∀ j j', (params j).partitionId = p → (params j').partitionId = p → j = j') →
    (s.meshes i).topology.getNodeForPartition p = some node →
    (s.meshes i').topology.getNodeForPartition p = some node' →
    node.id = node'.id ∧ ∀ j, (params j).partitionId = p → (params j).address.isIpv4 = true →
      node.address = (params j).address ∧ node'.address = (params j).address

omit [DecidableEq ι] in
/-- The owner of a partition and the record under its id belong to one mesh. -/
theorem recordOf_route {t : MeshTopology} (ht : AuthenticTopology params t)
    (hids : DistinctIds params) {p : UInt32} {node : NodeInfo}
    (hroute : t.getNodeForPartition p = some node) :
    ∃ j, (params j).partitionId = p ∧ RecordOf params j node := by
  obtain ⟨n, hn, hnode⟩ := Option.bind_eq_some_iff.mp hroute
  obtain ⟨j, hpartition, hid⟩ := ht.owners p n hn
  obtain ⟨hkey, j', hj'⟩ := ht.nodes n node hnode
  have hsame : j = j' := by
    rcases hid with hnodeId | hinfoId
    · apply hids.nodeId
      rw [← hnodeId, ← hkey, hj'.id]
    · apply hids.infoId
      rw [← hinfoId, ← hkey, hj'.id]
  subst hsame
  exact ⟨j, hpartition, hj'⟩

/-- **Routes lead home**: if no id is drawn twice, every route of every mesh leads to a mesh
with this partition, and all routes of the partition of one mesh lead to this mesh. -/
theorem routes_lead_home (params : ι → MeshParams) (hids : DistinctIds params)
    (ops : List (NetworkOp ι)) :
    Always step (RoutesLeadHome params) (create params) ops := by
  apply (authenticNetwork_always params ops).mono
  intro s h
  constructor
  · intro i p node hroute
    exact recordOf_route (h.meshes i).topology hids hroute
  · intro i i' p node node' honly hroute hroute'
    obtain ⟨j, hj, hrecord⟩ := recordOf_route (h.meshes i).topology hids hroute
    obtain ⟨j', hj', hrecord'⟩ := recordOf_route (h.meshes i').topology hids hroute'
    obtain rfl := honly j j' hj hj'
    refine ⟨by rw [hrecord.id, hrecord'.id], fun k hk hv4 => ?_⟩
    obtain rfl := honly j k hj hk
    exact ⟨hrecord.address hv4, hrecord'.address hv4⟩

/-- Two meshes on a machine. -/
def twoMeshes (second : Bool) : MeshParams where
  nodeId := ⟨if second then "b" else "a"⟩
  infoId := ⟨if second then "d" else "c"⟩
  address := .v4 0x7f000001 (if second then 50052 else 50051)
  partitionId := if second then 1 else 0
  totalPartitions := 2
  nodeTimeout := Duration.fromSecs 30
  created := .unixEpoch

/-- The first mesh synchronises with the second. -/
def firstSync : List (NetworkOp Bool) :=
  [.start false, .start true, .getMeshTopology true [⟨"d"⟩] [1] fun _ => .unixEpoch,
    .sync false 0 [1] fun _ => .unixEpoch]

theorem distinctIds_twoMeshes : DistinctIds twoMeshes := ⟨by decide, by decide⟩

/-- After the synchronisation the first mesh has a route to the second. -/
theorem routes_lead_home_firstSync :
    Always step (RoutesLeadHome twoMeshes) (create twoMeshes) firstSync ∧
      (((firstSync.foldl step (create twoMeshes)).meshes false).topology.getNodeForPartition
        1).map NodeInfo.address = some (.v4 0x7f000001 50052) :=
  ⟨routes_lead_home twoMeshes distinctIds_twoMeshes firstSync, by decide +kernel⟩

end MeshNetwork

end Rafka
