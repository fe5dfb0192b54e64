/-
Rafka/MeshSync.lean

Exchange of topologies between meshes (`Broker::get_mesh_topology` in
`crates/broker/src/broker.rs` and the topology synchronisation task of
`P2PMesh::start` in `crates/core/src/p2p_mesh.rs`).

A peer answers with the owners of its partitions and the records of its nodes.
The synchronisation task writes the owners first and then adds the nodes that
it does not know yet; `add_node` makes an added node the owner of its
partition.  A second merge of the same answer adds no node any more, so the
owners it writes stay.

The same merge is written twice more: in the manual synchronisation of
`Broker::forward_message_to_partition`, and in `P2PMesh::request_cluster_state`,
where the nodes come first and the owners have the last word.

Main results: the second merge changes nothing (`merge_twice_iff`), and the
three merges agree (`merges_agree_iff`), exactly when on every partition that
the answer gives an owner, the last discovered node, if there is one, is that
owner.  The record of a node comes back as it was sent exactly if its address
is an IPv4 address (`record_survives_iff`).
-/
import Rafka.Net

namespace Rafka

/-! ### The answer of a peer -/

/-- `MeshNodeInfo`. -/
structure MeshNodeInfo where
  nodeId : String
  address : String
  port : Int32
  partitionId : Int32
  totalPartitions : Int32
  isAlive : Bool
  lastSeenTimestamp : Int64
  metadata : HashMap String String
deriving DecidableEq

/-- `GetMeshTopologyResponse`. -/
structure GetMeshTopologyResponse where
  nodes : List MeshNodeInfo
  partitionOwners : HashMap Int32 String
  clusterSize : Int32
deriving DecidableEq

namespace SocketAddr

/-- `SocketAddr::ip`. -/
def ip : SocketAddr → IpAddr
  | .v4 ip _ => .v4 ip
  | .v6 ip _ _ _ => .v6 ip

/-- `SocketAddr::port`. -/
def port : SocketAddr → UInt16
  | .v4 _ port => port
  | .v6 _ port _ _ => port

end SocketAddr

/-- The record that `get_mesh_topology` sends of a node; `ipText` is how an
address is displayed.  The subtraction panics where it overflows. -/
def NodeInfo.toMeshNodeInfo (ipText : IpAddr → String) (node : NodeInfo) (now : EpochTime) :
    Option MeshNodeInfo :=
  let age : Int := (unixSecs now).toInt64.toInt - node.lastSeen.toInt64.toInt
  if age = (Int64.ofInt age).toInt then
    some
      { nodeId := node.id.name
        address := ipText node.address.ip
        port := node.address.port.toUInt32.toInt32
        partitionId := node.partitionId.toInt32
        totalPartitions := node.totalPartitions.toInt32
        isAlive := node.isAlive
        lastSeenTimestamp := Int64.ofInt age
        metadata := node.metadata }
  else none

/-- `Broker::get_mesh_topology` on a broker with a mesh.  The maps are iterated
in the orders `nodeOrder` and `partitionOrder`. -/
def MeshTopology.getMeshTopology (ipText : IpAddr → String) (t : MeshTopology)
    (nodeOrder : List NodeId) (partitionOrder : List UInt32) (now : NodeId → EpochTime) :
    Option GetMeshTopologyResponse := do
  let nodes ← (HashMap.iter nodeOrder t.nodes).mapM fun entry =>
    entry.2.toMeshNodeInfo ipText (now entry.1)
  some
    { nodes := nodes
      partitionOwners := (HashMap.iter partitionOrder t.partitions).foldl
        (fun owners entry => owners.insert entry.1.toInt32 entry.2.name) ∅
      clusterSize := Int32.ofNat t.nodes.keys.card }

/-- The owner that the answer gives a partition. -/
def GetMeshTopologyResponse.owner (r : GetMeshTopologyResponse) (p : UInt32) : Option NodeId :=
  (r.partitionOwners.lookup p.toInt32).map NodeId.mk

/-! ### The merge of the synchronisation task -/

/-- `"127.0.0.1:50051".parse()`. -/
def SocketAddr.fallback : SocketAddr := .v4 0x7f000001 50051

/-- The record that the task makes of a remote node; `parse` is how an address
is read. -/
def NodeInfo.ofRemote (parse : String → Option SocketAddr) (remoteNode : MeshNodeInfo)
    (now : EpochTime) : NodeInfo where
  id := ⟨remoteNode.nodeId⟩
  address := (parse (remoteNode.address ++ ":" ++ toString remoteNode.port)).getD
    SocketAddr.fallback
  partitionId := remoteNode.partitionId.toUInt32
  totalPartitions := remoteNode.totalPartitions.toUInt32
  lastSeen := unixSecs now
  isAlive := remoteNode.isAlive
  metadata := remoteNode.metadata

namespace MeshTopology

/-- One turn of the loop over the owners. -/
def mergeOwner (t : MeshTopology) (entry : Int32 × String) : MeshTopology :=
  { t with partitions := t.partitions.insert entry.1.toUInt32 ⟨entry.2⟩ }

/-- One turn of the loop over the nodes. -/
def mergeNode (t : MeshTopology) (node : NodeInfo) : MeshTopology :=
  if node.id ∈ t.nodes then t else t.addNode node

/-- The records that the task makes of the nodes of an answer; `now` is the clock
reading at which a node is added, and no id is added twice. -/
def remoteNodes (parse : String → Option SocketAddr) (remoteTopology : GetMeshTopologyResponse)
    (now : String → EpochTime) : List NodeInfo :=
  remoteTopology.nodes.map fun remoteNode =>
    NodeInfo.ofRemote parse remoteNode (now remoteNode.nodeId)

/-- What the task does with an answer.  The owners are iterated in the order
`order`. -/
def merge (parse : String → Option SocketAddr) (t : MeshTopology)
    (remoteTopology : GetMeshTopologyResponse) (order : List Int32)
    (now : String → EpochTime) : MeshTopology :=
  (remoteNodes parse remoteTopology now).foldl mergeNode
    ((HashMap.iter order remoteTopology.partitionOwners).foldl mergeOwner t)

/-! ### The other two merges -/

/-- The record that `request_cluster_state` makes of a remote node: an address
that cannot be read becomes that of the bootstrap node. -/
def bootstrapNode (parse : String → Option SocketAddr) (bootstrapAddr : SocketAddr)
    (remoteNode : MeshNodeInfo) (now : EpochTime) : NodeInfo :=
  { NodeInfo.ofRemote parse remoteNode now with
    address := (parse (remoteNode.address ++ ":" ++ toString remoteNode.port)).getD
      bootstrapAddr }

/-- What `P2PMesh::request_cluster_state` does with an answer: the nodes first,
then the owners. -/
def requestClusterState (parse : String → Option SocketAddr) (bootstrapAddr : SocketAddr)
    (t : MeshTopology) (topology : GetMeshTopologyResponse) (order : List Int32)
    (now : String → EpochTime) : MeshTopology :=
  (HashMap.iter order topology.partitionOwners).foldl mergeOwner
    ((topology.nodes.map fun remoteNode =>
      bootstrapNode parse bootstrapAddr remoteNode (now remoteNode.nodeId)).foldl mergeNode t)

/-- What the manual synchronisation of `Broker::forward_message_to_partition` does
with an answer, which is what the task does. -/
def manualSync (parse : String → Option SocketAddr) (t : MeshTopology)
    (remoteTopology : GetMeshTopologyResponse) (order : List Int32)
    (now : String → EpochTime) : MeshTopology :=
  t.merge parse remoteTopology order now

/-! ### The loops -/

variable {t : MeshTopology}

/-- The nodes that the loop adds: those that are not known when their turn
comes. -/
def discovered (t : MeshTopology) : List NodeInfo → List NodeInfo
  | [] => []
  | node :: nodes =>
      if node.id ∈ t.nodes then discovered t nodes
      else node :: discovered (t.addNode node) nodes

theorem foldl_mergeNode (t : MeshTopology) (nodes : List NodeInfo) :
    nodes.foldl mergeNode t = (discovered t nodes).foldl addNode t := by
  induction nodes generalizing t with
  | nil => rfl
  | cons node nodes ih =>
      rw [List.foldl_cons, discovered, mergeNode]
      by_cases hknown : node.id ∈ t.nodes
      · rw [if_pos hknown, if_pos hknown, ih]
      · rw [if_neg hknown, if_neg hknown, ih, List.foldl_cons]

/-- Which nodes are discovered depends on the known nodes only. -/
theorem discovered_congr {t t' : MeshTopology} (h : t.nodes = t'.nodes)
    (nodes : List NodeInfo) : discovered t nodes = discovered t' nodes := by
  induction nodes generalizing t t' with
  | nil => rfl
  | cons node nodes ih =>
      have hadded : (t.addNode node).nodes = (t'.addNode node).nodes := by
        rw [addNode, addNode, h]
      rw [discovered, discovered, h, ih h, ih hadded]

/-- Known nodes stay known. -/
theorem mem_nodes_foldl_mergeNode {n : NodeId} (h : n ∈ t.nodes) (nodes : List NodeInfo) :
    n ∈ (nodes.foldl mergeNode t).nodes := by
  induction nodes generalizing t with
  | nil => exact h
  | cons node nodes ih =>
      apply ih
      unfold mergeNode
      split
      · exact h
      · exact Finmap.mem_insert.mpr (.inr h)

/-- After the loop all its nodes are known. -/
theorem known_of_mem {nodes : List NodeInfo} {node : NodeInfo} (h : node ∈ nodes) :
    node.id ∈ (nodes.foldl mergeNode t).nodes := by
  induction nodes generalizing t with
  | nil => cases h
  | cons other nodes ih =>
      rcases List.mem_cons.mp h with rfl | hmem
      · refine mem_nodes_foldl_mergeNode ?_ nodes
        unfold mergeNode
        split
        · assumption
        · exact Finmap.mem_insert.mpr (.inl rfl)
      · exact ih hmem

/-- Known nodes are skipped. -/
theorem foldl_mergeNode_of_known {nodes : List NodeInfo}
    (h : ∀ node ∈ nodes, node.id ∈ t.nodes) : nodes.foldl mergeNode t = t := by
  induction nodes with
  | nil => rfl
  | cons node nodes ih =>
      rw [List.foldl_cons, mergeNode, if_pos (h node List.mem_cons_self)]
      exact ih fun other hmem => h other (List.mem_cons_of_mem node hmem)

theorem nodes_foldl_mergeOwner (entries : List (Int32 × String)) (t : MeshTopology) :
    (entries.foldl mergeOwner t).nodes = t.nodes := by
  induction entries generalizing t with
  | nil => rfl
  | cons entry entries ih => exact ih _

/-- The loop writes the owners of the partitions that it visits. -/
theorem lookup_partitions_foldl_mergeOwner (r : GetMeshTopologyResponse) (order : List Int32)
    (t : MeshTopology) (p : UInt32) :
    ((HashMap.iter order r.partitionOwners).foldl mergeOwner t).partitions.lookup p =
      if p.toInt32 ∈ order then (r.owner p).or (t.partitions.lookup p)
      else t.partitions.lookup p := by
  induction order generalizing t with
  | nil => rfl
  | cons k order ih =>
      cases hk : r.partitionOwners.lookup k with
      | none =>
          -- a partition without an owner is not visited
          have hiter : HashMap.iter (k :: order) r.partitionOwners =
              HashMap.iter order r.partitionOwners := by
            simp [HashMap.iter, hk]
          rw [hiter, ih]
          by_cases hp : p.toInt32 = k
          · have howner : r.owner p = none := by rw [GetMeshTopologyResponse.owner, hp, hk]; rfl
            simp [howner]
          · simp [hp]
      | some v =>
          have hiter : HashMap.iter (k :: order) r.partitionOwners =
              (k, v) :: HashMap.iter order r.partitionOwners := by
            simp [HashMap.iter, hk]
          have hwritten : (mergeOwner t (k, v)).partitions.lookup p =
              if p.toInt32 = k then some ⟨v⟩ else t.partitions.lookup p := by
            have hcast : p = k.toUInt32 ↔ p.toInt32 = k :=
              ⟨fun h => by rw [h, Int32.toInt32_toUInt32],
                fun h => by rw [← h, UInt32.toUInt32_toInt32]⟩
            rw [mergeOwner, HashMap.lookup_insert_eq]
            simp only [hcast]
          rw [hiter, List.foldl_cons, ih, hwritten]
          by_cases hp : p.toInt32 = k
          · have howner : r.owner p = some ⟨v⟩ := by rw [GetMeshTopologyResponse.owner, hp, hk]; rfl
            simp [hp, howner]
          · simp [hp]

theorem lookup_partitions_mergeOwners {r : GetMeshTopologyResponse} {order : List Int32}
    (h : HashMap.Enumerates order r.partitionOwners) (t : MeshTopology) (p : UInt32) :
    ((HashMap.iter order r.partitionOwners).foldl mergeOwner t).partitions.lookup p =
      (r.owner p).or (t.partitions.lookup p) := by
  rw [lookup_partitions_foldl_mergeOwner]
  by_cases hp : p.toInt32 ∈ order
  · rw [if_pos hp]
  · rw [if_neg hp]
    have hnone : r.partitionOwners.lookup p.toInt32 = none :=
      Finmap.lookup_eq_none.mpr fun hmem => hp (h.mem_iff.mpr hmem)
    rw [GetMeshTopologyResponse.owner, hnone]
    rfl

/-! ### Merging once and twice -/

section Merge

variable {parse : String → Option SocketAddr} {r : GetMeshTopologyResponse}
variable {order order' : List Int32} {now now' : String → EpochTime}

/-- The first merge: a discovered node comes before the owner of the answer, and
that before the owner so far. -/
theorem lookup_partitions_merge (parse : String → Option SocketAddr)
    (now : String → EpochTime) (h : HashMap.Enumerates order r.partitionOwners)
    (t : MeshTopology) (p : UInt32) :
    (t.merge parse r order now).partitions.lookup p =
      (claimant (discovered t (remoteNodes parse r now)) p).or
        ((r.owner p).or (t.partitions.lookup p)) := by
  rw [merge, foldl_mergeNode, lookup_partitions_foldl_addNode, lookup_partitions_mergeOwners h,
    discovered_congr (nodes_foldl_mergeOwner _ t)]

/-- The ids of the remote nodes do not depend on the clock. -/
theorem known_merge (t : MeshTopology) :
    ∀ node ∈ remoteNodes parse r now', node.id ∈ (t.merge parse r order now).nodes := by
  intro node hnode
  obtain ⟨remoteNode, hmem, rfl⟩ := List.mem_map.mp hnode
  have hfirst : NodeInfo.ofRemote parse remoteNode (now remoteNode.nodeId) ∈
      remoteNodes parse r now := List.mem_map_of_mem hmem
  show (NodeInfo.ofRemote parse remoteNode (now remoteNode.nodeId)).id ∈ _
  exact known_of_mem hfirst

/-- The second merge writes the owners only. -/
theorem merge_merge (t : MeshTopology) :
    (t.merge parse r order now).merge parse r order' now' =
      (HashMap.iter order' r.partitionOwners).foldl mergeOwner (t.merge parse r order now) := by
  rw [merge]
  apply foldl_mergeNode_of_known
  intro node hnode
  rw [nodes_foldl_mergeOwner]
  exact known_merge t node hnode

/-- Merging the answer again has changed nothing and lost no route. -/
structure Idempotent (once twice : MeshTopology) : Prop where
  nodes : twice.nodes = once.nodes
  partitions : twice.partitions = once.partitions
  routes : ∀ p, (once.getNodeForPartition p).isSome → (twice.getNodeForPartition p).isSome

/-- On every partition that the answer gives an owner, the last discovered node,
if there is one, is that owner. -/
def Agrees (parse : String → Option SocketAddr) (t : MeshTopology)
    (r : GetMeshTopologyResponse) (now : String → EpochTime) : Prop :=
  ∀ p o, r.owner p = some o →
    ∀ n, claimant (discovered t (remoteNodes parse r now)) p = some n → n = o

/-- Merging an answer a second time changes nothing, and keeps every route,
exactly when the discovered nodes agree with the owners. -/
theorem merge_twice_iff (h : HashMap.Enumerates order r.partitionOwners)
    (h' : HashMap.Enumerates order' r.partitionOwners) (t : MeshTopology) :
    Idempotent (t.merge parse r order now)
        ((t.merge parse r order now).merge parse r order' now') ↔
      Agrees parse t r now := by
  have hnodes : ((t.merge parse r order now).merge parse r order' now').nodes =
      (t.merge parse r order now).nodes := by
    rw [merge_merge, nodes_foldl_mergeOwner]
  have hpartitions (p : UInt32) :
      ((t.merge parse r order now).merge parse r order' now').partitions.lookup p =
        (r.owner p).or ((t.merge parse r order now).partitions.lookup p) := by
    rw [merge_merge, lookup_partitions_mergeOwners h']
  have honce := lookup_partitions_merge parse now h t
  constructor
  · intro hsame p o howner n hclaim
    have hp := hpartitions p
    rw [hsame.partitions, honce, hclaim, howner] at hp
    simpa using hp
  · intro hagrees
    have hsame : ((t.merge parse r order now).merge parse r order' now').partitions =
        (t.merge parse r order now).partitions := by
      apply Finmap.ext_lookup
      intro p
      rw [hpartitions, honce]
      cases howner : r.owner p with
      | none => rfl
      | some o =>
          cases hclaim : claimant (discovered t (remoteNodes parse r now)) p with
          | none => rfl
          | some n => rw [hagrees p o howner n hclaim]; rfl
    refine ⟨hnodes, hsame, fun p hp => ?_⟩
    rw [getNodeForPartition, hnodes, hsame]
    exact hp

/-- The answer of a peer with the node `nodeId`, in which `b` owns partition 1. -/
def answer (nodeId : String) : GetMeshTopologyResponse where
  nodes := [⟨nodeId, "127.0.0.1", 50052, 1, 2, true, 0, ∅⟩]
  partitionOwners := Finmap.singleton 1 "b"
  clusterSize := 1

/-- In an answer with one id, whoever owns or claims a partition is `b`. -/
theorem agrees_answer_b :
    Agrees (fun _ => some (SocketAddr.v4 0x7f000001 50052)) MeshTopology.new (answer "b")
      fun _ => EpochTime.unixEpoch := by
  intro p o howner n hclaim
  have hdisc : discovered MeshTopology.new
      (remoteNodes (fun _ => some (SocketAddr.v4 0x7f000001 50052)) (answer "b") fun _ =>
        EpochTime.unixEpoch) =
      remoteNodes (fun _ => some (SocketAddr.v4 0x7f000001 50052)) (answer "b") fun _ =>
        EpochTime.unixEpoch := by decide
  have hn : n = ⟨"b"⟩ := by
    rw [hdisc] at hclaim
    obtain ⟨node, hnode, rfl⟩ := Option.map_eq_some_iff.mp hclaim
    have hmem := List.mem_reverse.mp (List.mem_of_find?_eq_some hnode)
    rw [remoteNodes, answer, List.map_cons, List.map_nil, List.mem_singleton] at hmem
    rw [hmem]
    rfl
  have ho : o = ⟨"b"⟩ := by
    obtain ⟨name, hname, rfl⟩ := Option.map_eq_some_iff.mp howner
    have hmem := Finmap.mem_of_lookup_eq_some hname
    rw [answer, Finmap.mem_singleton] at hmem
    rw [hmem, answer, Finmap.lookup_singleton_eq] at hname
    cases hname
    rfl
  rw [hn, ho]

/-- An answer with one id can be merged again. -/
theorem answer_b_merged_twice :
    let parse (_ : String) := some (SocketAddr.v4 0x7f000001 50052)
    let now (_ : String) := EpochTime.unixEpoch
    let once := MeshTopology.new.merge parse (answer "b") [1] now
    HashMap.Enumerates [1] (answer "b").partitionOwners ∧
      Idempotent once (once.merge parse (answer "b") [1] now) := by
  intro parse now once
  have henum : HashMap.Enumerates [1] (answer "b").partitionOwners := by decide
  exact ⟨henum, (merge_twice_iff henum henum MeshTopology.new).mpr agrees_answer_b⟩

/-- Two brokers that have just started.  The peer registers `b` as the owner of
its partition and keeps its record under `c`.  The first merge of its answer
gives the partition to `c`, the second one back to `b`, which has no record. -/
theorem second_merge_loses_route :
    let parse (_ : String) := some (SocketAddr.v4 0x7f000001 50052)
    let ipText (_ : IpAddr) := "127.0.0.1"
    let now := EpochTime.unixEpoch
    let timeout := Duration.fromSecs 60
    let own := (P2PMesh.new ⟨"a"⟩ ⟨"d"⟩ (.v4 0x7f000001 50051) 0 2 timeout now).start.topology
    let peer := (P2PMesh.new ⟨"b"⟩ ⟨"c"⟩ (.v4 0x7f000001 50052) 1 2 timeout now).start.topology
    let once := own.merge parse (answer "c") [1] fun _ => now
    let twice := once.merge parse (answer "c") [1] fun _ => now
    peer.getMeshTopology ipText [⟨"c"⟩] [1] (fun _ => now) = some (answer "c") ∧
      HashMap.Enumerates [1] (answer "c").partitionOwners ∧
      (once.getNodeForPartition 1).isSome ∧ twice.getNodeForPartition 1 = none ∧
        ¬ Idempotent once twice := by
  intro parse ipText now timeout own peer once twice
  have hfound : (once.getNodeForPartition 1).isSome := by decide
  have hlost : twice.getNodeForPartition 1 = none := by decide
  refine ⟨by decide, by decide, hfound, hlost, fun h => ?_⟩
  have hkept := h.routes 1 hfound
  rw [hlost] at hkept
  cases hkept

/-! ### The three merges -/

/-- A record without the time at which the node was last seen. -/
def unseen (node : NodeInfo) : NodeInfo := { node with lastSeen := 0 }

/-- The same maps, the times at which nodes were last seen aside. -/
structure SameTables (t t' : MeshTopology) : Prop where
  nodes : ∀ n, (t.nodes.lookup n).map unseen = (t'.nodes.lookup n).map unseen
  partitions : t.partitions = t'.partitions

theorem home_map_unseen (nodes : List NodeInfo) (n : NodeId) :
    (home nodes n).map unseen = home (nodes.map unseen) n := by
  rw [home, home, ← List.map_reverse, List.find?_map]
  rfl

theorem claimant_map_unseen (nodes : List NodeInfo) (p : UInt32) :
    claimant (nodes.map unseen) p = claimant nodes p := by
  rw [claimant, claimant, ← List.map_reverse, List.find?_map, Option.map_map]
  rfl

/-- Which nodes are discovered does not depend on when they were seen. -/
theorem discovered_map_unseen {t t' : MeshTopology} {nodes nodes' : List NodeInfo}
    (hknown : ∀ n, n ∈ t.nodes ↔ n ∈ t'.nodes) (h : nodes.map unseen = nodes'.map unseen) :
    (discovered t nodes).map unseen = (discovered t' nodes').map unseen := by
  induction nodes generalizing t t' nodes' with
  | nil =>
      have hnil : nodes' = [] := List.map_eq_nil_iff.mp h.symm
      rw [hnil]
      rfl
  | cons node nodes ih =>
      cases nodes' with
      | nil => cases h
      | cons node' nodes' =>
          obtain ⟨hnode, hnodes⟩ := List.cons.inj h
          have hid : (unseen node).id = (unseen node').id := congrArg NodeInfo.id hnode
          replace hid : node.id = node'.id := hid
          rw [discovered, discovered, hid]
          simp only [hknown node'.id]
          split
          · exact ih hknown hnodes
          · rw [List.map_cons, List.map_cons, hnode]
            congr 1
            refine ih ?_ hnodes
            intro n
            rw [addNode, addNode, Finmap.mem_insert, Finmap.mem_insert, hid, hknown n]

/-- Where all addresses can be read, the records differ in their times only. -/
theorem map_unseen_bootstrapNode {bootstrapAddr : SocketAddr}
    (hparse : ∀ node ∈ r.nodes, (parse (node.address ++ ":" ++ toString node.port)).isSome) :
    (r.nodes.map fun node => bootstrapNode parse bootstrapAddr node (now' node.nodeId)).map
        unseen =
      (remoteNodes parse r now).map unseen := by
  rw [remoteNodes, List.map_map, List.map_map]
  apply List.map_congr_left
  intro node hnode
  obtain ⟨address, haddress⟩ := Option.isSome_iff_exists.mp (hparse node hnode)
  simp only [Function.comp_apply, bootstrapNode, NodeInfo.ofRemote, haddress, Option.getD_some,
    unseen]

theorem map_unseen_remoteNodes :
    (remoteNodes parse r now').map unseen = (remoteNodes parse r now).map unseen := by
  rw [remoteNodes, remoteNodes, List.map_map, List.map_map]
  rfl

/-- The nodes after a merge. -/
theorem lookup_nodes_merge (parse : String → Option SocketAddr) (r : GetMeshTopologyResponse)
    (order : List Int32) (now : String → EpochTime) (t : MeshTopology) (n : NodeId) :
    (t.merge parse r order now).nodes.lookup n =
      (home (discovered t (remoteNodes parse r now)) n).or (t.nodes.lookup n) := by
  rw [merge, foldl_mergeNode, lookup_nodes_foldl_addNode, nodes_foldl_mergeOwner,
    discovered_congr (nodes_foldl_mergeOwner _ t)]

/-- The same records, times aside, give the same nodes. -/
theorem map_unseen_lookup {nodes nodes' : List NodeInfo}
    (h : nodes.map unseen = nodes'.map unseen) (t : MeshTopology) (n : NodeId) :
    ((home (discovered t nodes) n).or (t.nodes.lookup n)).map unseen =
      ((home (discovered t nodes') n).or (t.nodes.lookup n)).map unseen := by
  rw [Option.map_or, Option.map_or, home_map_unseen, home_map_unseen,
    discovered_map_unseen (fun _ => Iff.rfl) h]

theorem claimant_discovered {nodes nodes' : List NodeInfo}
    (h : nodes.map unseen = nodes'.map unseen) (t : MeshTopology) (p : UInt32) :
    claimant (discovered t nodes) p = claimant (discovered t nodes') p := by
  rw [← claimant_map_unseen, ← claimant_map_unseen (discovered t nodes'),
    discovered_map_unseen (fun _ => Iff.rfl) h]

/-- The manual synchronisation does what the task does. -/
theorem sameTables_manualSync (h : HashMap.Enumerates order r.partitionOwners)
    (h' : HashMap.Enumerates order' r.partitionOwners) (t : MeshTopology) :
    SameTables (t.merge parse r order now) (t.manualSync parse r order' now') where
  nodes := by
    intro n
    rw [manualSync, lookup_nodes_merge, lookup_nodes_merge]
    exact map_unseen_lookup map_unseen_remoteNodes t n
  partitions := by
    apply Finmap.ext_lookup
    intro p
    rw [manualSync, lookup_partitions_merge parse now h, lookup_partitions_merge parse now' h',
      claimant_discovered map_unseen_remoteNodes t p]

/-- Which of two owners comes first matters only where both are given. -/
theorem or_or_comm_iff {α : Type*} {a b c : Option α} :
    a.or (b.or c) = b.or (a.or c) ↔ ∀ x, b = some x → ∀ y, a = some y → y = x := by
  cases a <;> cases b <;> simp

/-- With the nodes first, the tables are the same exactly when the discovered
nodes agree with the owners. -/
theorem sameTables_requestClusterState_iff {bootstrapAddr : SocketAddr}
    (hparse : ∀ node ∈ r.nodes, (parse (node.address ++ ":" ++ toString node.port)).isSome)
    (h : HashMap.Enumerates order r.partitionOwners)
    (h' : HashMap.Enumerates order' r.partitionOwners) (t : MeshTopology) :
    SameTables (t.merge parse r order now)
        (t.requestClusterState parse bootstrapAddr r order' now') ↔
      Agrees parse t r now := by
  have hrecords : (r.nodes.map fun node =>
      bootstrapNode parse bootstrapAddr node (now' node.nodeId)).map unseen =
      (remoteNodes parse r now).map unseen := map_unseen_bootstrapNode hparse
  have hpartitions (p : UInt32) :
      (t.requestClusterState parse bootstrapAddr r order' now').partitions.lookup p =
        (r.owner p).or ((claimant (discovered t (remoteNodes parse r now)) p).or
          (t.partitions.lookup p)) := by
    rw [requestClusterState, lookup_partitions_mergeOwners h', foldl_mergeNode,
      lookup_partitions_foldl_addNode, claimant_discovered hrecords t p]
  constructor
  · intro hsame p
    have hp := lookup_partitions_merge parse now h t p
    rw [hsame.partitions, hpartitions] at hp
    exact or_or_comm_iff.mp hp.symm
  · intro hagrees
    constructor
    · intro n
      rw [requestClusterState, nodes_foldl_mergeOwner, foldl_mergeNode,
        lookup_nodes_foldl_addNode, lookup_nodes_merge]
      exact map_unseen_lookup hrecords.symm t n
    · apply Finmap.ext_lookup
      intro p
      rw [lookup_partitions_merge parse now h, hpartitions]
      exact or_or_comm_iff.mpr (hagrees p)

/-- **The three merges agree exactly when the discovered nodes agree with the
owners**, for every topology and every answer whose addresses can be read. -/
theorem merges_agree_iff {order₁ order₂ order₃ : List Int32}
    (now₁ now₂ now₃ : String → EpochTime) (bootstrapAddr : SocketAddr)
    (hparse : ∀ node ∈ r.nodes, (parse (node.address ++ ":" ++ toString node.port)).isSome)
    (h₁ : HashMap.Enumerates order₁ r.partitionOwners)
    (h₂ : HashMap.Enumerates order₂ r.partitionOwners)
    (h₃ : HashMap.Enumerates order₃ r.partitionOwners) (t : MeshTopology) :
    SameTables (t.merge parse r order₁ now₁)
          (t.requestClusterState parse bootstrapAddr r order₂ now₂) ∧
        SameTables (t.merge parse r order₁ now₁) (t.manualSync parse r order₃ now₃) ↔
      Agrees parse t r now₁ := by
  rw [sameTables_requestClusterState_iff hparse h₁ h₂ t]
  exact and_iff_left (sameTables_manualSync h₁ h₃ t)

/-- An answer with one id is merged in the same way everywhere. -/
theorem answer_b_merged_alike :
    let parse (_ : String) := some (SocketAddr.v4 0x7f000001 50052)
    let now (_ : String) := EpochTime.unixEpoch
    let t := MeshTopology.new
    (∀ node ∈ (answer "b").nodes,
        (parse (node.address ++ ":" ++ toString node.port)).isSome) ∧
      HashMap.Enumerates [1] (answer "b").partitionOwners ∧
      SameTables (t.merge parse (answer "b") [1] now)
        (t.requestClusterState parse .fallback (answer "b") [1] now) ∧
      SameTables (t.merge parse (answer "b") [1] now)
        (t.manualSync parse (answer "b") [1] now) := by
  intro parse now t
  have hparse : ∀ node ∈ (answer "b").nodes,
      (parse (node.address ++ ":" ++ toString node.port)).isSome := fun _ _ => rfl
  have henum : HashMap.Enumerates [1] (answer "b").partitionOwners := by decide
  exact ⟨hparse, henum, (merges_agree_iff now now now .fallback hparse henum henum henum t).mpr
    agrees_answer_b⟩

/-- The answer of a peer that has just started, which keeps its record under `c`
and registers `b` as the owner of its partition: the task and the manual
synchronisation give the partition to `c`, the request for the cluster state
gives it to `b`. -/
theorem cluster_state_merged_otherwise :
    let parse (_ : String) := some (SocketAddr.v4 0x7f000001 50052)
    let now (_ : String) := EpochTime.unixEpoch
    let own := (P2PMesh.new ⟨"a"⟩ ⟨"d"⟩ (.v4 0x7f000001 50051) 0 2 (Duration.fromSecs 60)
      .unixEpoch).start.topology
    let peer := (P2PMesh.new ⟨"b"⟩ ⟨"c"⟩ (.v4 0x7f000001 50052) 1 2 (Duration.fromSecs 60)
      .unixEpoch).start.topology
    peer.getMeshTopology (fun _ => "127.0.0.1") [⟨"c"⟩] [1] (fun _ => .unixEpoch) =
        some (answer "c") ∧
      ((answer "c").nodes.map MeshNodeInfo.nodeId).Nodup ∧
      (∀ node ∈ (answer "c").nodes,
        (parse (node.address ++ ":" ++ toString node.port)).isSome) ∧
      HashMap.Enumerates [1] (answer "c").partitionOwners ∧
      (own.merge parse (answer "c") [1] now).partitions.lookup 1 = some ⟨"c"⟩ ∧
      (own.manualSync parse (answer "c") [1] now).partitions.lookup 1 = some ⟨"c"⟩ ∧
      (own.requestClusterState parse .fallback (answer "c") [1] now).partitions.lookup 1 =
        some ⟨"b"⟩ ∧
      ¬ (SameTables (own.merge parse (answer "c") [1] now)
          (own.requestClusterState parse .fallback (answer "c") [1] now) ∧
        SameTables (own.merge parse (answer "c") [1] now)
          (own.manualSync parse (answer "c") [1] now)) := by
  intro parse now own peer
  have hmerge : (own.merge parse (answer "c") [1] now).partitions.lookup 1 = some ⟨"c"⟩ := by
    decide
  have hrequest : (own.requestClusterState parse .fallback (answer "c") [1]
      now).partitions.lookup 1 = some ⟨"b"⟩ := by
    decide
  refine ⟨by decide, by decide, fun _ _ => rfl, by decide, hmerge, by decide, hrequest, ?_⟩
  rintro ⟨hsame, -⟩
  rw [hsame.partitions, hrequest] at hmerge
  exact absurd hmerge (by decide)

end Merge

end MeshTopology

/-! ### Records on the wire -/

/-- `SocketAddr::is_ipv4`. -/
def SocketAddr.isIpv4 : SocketAddr → Bool
  | .v4 .. => true
  | .v6 .. => false

namespace NodeInfo

/-- The same record, the time at which it was last seen aside. -/
structure SameRecord (node node' : NodeInfo) : Prop where
  id : node'.id = node.id
  address : node'.address = node.address
  partitionId : node'.partitionId = node.partitionId
  totalPartitions : node'.totalPartitions = node.totalPartitions
  isAlive : node'.isAlive = node.isAlive
  metadata : node'.metadata = node.metadata

/-- A port is sent as a number that is not negative. -/
theorem toString_port (port : UInt16) :
    toString port.toUInt32.toInt32 = Nat.repr port.toNat := by
  have hlt := port.toNat_lt
  have hint : port.toUInt32.toInt32.toInt = port.toNat := by
    show (BitVec.setWidth 32 port.toBitVec).toInt = port.toNat
    rw [BitVec.toInt_eq_toNat_of_lt] <;> simp
    omega
  show toString port.toUInt32.toInt32.toInt = _
  rw [hint]
  rfl

/-- What a peer reads as the address. -/
theorem parse_sent (address : SocketAddr) :
    SocketAddr.parse (address.ip.display ++ ":" ++ toString address.port.toUInt32.toInt32) =
      if address.isIpv4 then some address else none := by
  cases address with
  | v4 ip port =>
      show SocketAddr.parse ((IpAddr.v4 ip).display ++ ":" ++ toString port.toUInt32.toInt32) = _
      rw [toString_port, SocketAddr.parse_v4]
      rfl
  | v6 ip port flowinfo scopeId => exact SocketAddr.parse_v6 ip _

variable {node : NodeInfo} {now : EpochTime} {sent : MeshNodeInfo}

/-- All but the address comes back whatever it is. -/
theorem sameRecord_iff {rebuilt : NodeInfo} (h : node.toMeshNodeInfo IpAddr.display now = some sent)
    (now' : EpochTime)
    (hrebuilt : rebuilt = { ofRemote SocketAddr.parse sent now' with address := rebuilt.address }) :
    SameRecord node rebuilt ↔ rebuilt.address = node.address := by
  constructor
  · intro hsame
    exact hsame.address
  · intro haddress
    unfold toMeshNodeInfo at h
    dsimp only at h
    split at h
    · cases h
      rw [hrebuilt]
      exact ⟨rfl, haddress, UInt32.toUInt32_toInt32 _, UInt32.toUInt32_toInt32 _, rfl, rfl⟩
    · cases h

theorem parse_of_sent (h : node.toMeshNodeInfo IpAddr.display now = some sent) :
    SocketAddr.parse (sent.address ++ ":" ++ toString sent.port) =
      if node.address.isIpv4 then some node.address else none := by
  unfold toMeshNodeInfo at h
  dsimp only at h
  split at h
  · cases h
    exact parse_sent node.address
  · cases h

theorem fallback_isIpv4 : SocketAddr.fallback.isIpv4 = true := rfl

/-- **When a record survives the wire.**  What the synchronisation task and the manual
synchronisation rebuild from the record that was sent is the same record exactly if the
address is an IPv4 address; what `request_cluster_state` rebuilds, also if the address is
that of the bootstrap node. -/
theorem record_survives_iff (node : NodeInfo) (now now' : EpochTime) (sent : MeshNodeInfo)
    (bootstrapAddr : SocketAddr) (h : node.toMeshNodeInfo IpAddr.display now = some sent) :
    (SameRecord node (ofRemote SocketAddr.parse sent now') ↔ node.address.isIpv4 = true) ∧
    (SameRecord node (MeshTopology.bootstrapNode SocketAddr.parse bootstrapAddr sent now') ↔
      node.address.isIpv4 = true ∨ bootstrapAddr = node.address) := by
  have hparse := parse_of_sent h
  constructor
  · rw [sameRecord_iff h now' rfl]
    simp only [ofRemote, hparse]
    by_cases hv4 : node.address.isIpv4 = true
    · simp [hv4]
    · have hne : SocketAddr.fallback ≠ node.address := by
        intro heq
        exact hv4 (heq ▸ fallback_isIpv4)
      simp [hv4, hne]
  · rw [sameRecord_iff h now' rfl]
    simp only [MeshTopology.bootstrapNode, hparse]
    by_cases hv4 : node.address.isIpv4 = true
    · simp [hv4]
    · simp [hv4]

/-- A node at a given address. -/
def nodeAt (address : SocketAddr) : NodeInfo := NodeInfo.new ⟨"a"⟩ address 0 2 .unixEpoch

theorem record_survives_iff_v4 :
    let node := nodeAt (.v4 0x7f000001 50052)
    let sent : MeshNodeInfo := ⟨"a", "127.0.0.1", 50052, 0, 2, true, 0, ∅⟩
    node.toMeshNodeInfo IpAddr.display .unixEpoch = some sent ∧
      (SameRecord node (ofRemote SocketAddr.parse sent .unixEpoch) ↔
        node.address.isIpv4 = true) ∧
      (SameRecord node (MeshTopology.bootstrapNode SocketAddr.parse .fallback sent .unixEpoch) ↔
        node.address.isIpv4 = true ∨ .fallback = node.address) :=
  ⟨by decide +kernel,
    record_survives_iff (nodeAt (.v4 0x7f000001 50052)) .unixEpoch .unixEpoch _ .fallback
      (by decide +kernel)⟩

/-- The address `[::1]:50052` comes back as another one. -/
theorem loopback_v6_is_lost :
    let node := nodeAt (.v6 1 50052 0 0)
    let sent : MeshNodeInfo := ⟨"a", "::1", 50052, 0, 2, true, 0, ∅⟩
    node.toMeshNodeInfo IpAddr.display .unixEpoch = some sent ∧
      (ofRemote SocketAddr.parse sent .unixEpoch).address = .v4 0x7f000001 50051 ∧
      ¬ SameRecord node (ofRemote SocketAddr.parse sent .unixEpoch) := by
  have haddress : (ofRemote SocketAddr.parse ⟨"a", "::1", 50052, 0, 2, true, 0, ∅⟩
      .unixEpoch).address = .v4 0x7f000001 50051 := by
    decide +kernel
  refine ⟨by decide +kernel, haddress, fun hsame => ?_⟩
  exact absurd (haddress.symm.trans hsame.address) (by decide)

end NodeInfo

end Rafka
