/-
Rafka/Removal.lean

Removing a node from the mesh (`MeshTopology::remove_node` in
`crates/core/src/p2p_mesh.rs`).

A partition changes hands whenever somebody announces it: `add_node`, `update_node` and a
PartitionUpdate overwrite its owner and leave the record of the old one as it was.
`remove_node` goes by the record: it drops the route of the partition that the removed
node announced last, whoever owns it by now, and no other route of that node.

`removes_only_iff` says which removals touch the removed node only: those of a node whose
routes are just the one of its recorded partition, or none, while nobody else owns that
partition.
-/
import Rafka.Mesh

namespace Rafka

/-- What changes the two maps of a topology. -/
inductive TopologyOp
  | addNode (node : NodeInfo)
  | updateNode (node : NodeInfo)
  | removeNode (nodeId : NodeId)
  | partitionUpdate (partitionId : UInt32) (owner : NodeId)

namespace MeshTopology

/-- One operation. -/
def apply (t : MeshTopology) : TopologyOp → MeshTopology
  | .addNode node => t.addNode node
  | .updateNode node => t.updateNode node
  | .removeNode nodeId => t.removeNode nodeId
  | .partitionUpdate partitionId owner =>
      { t with partitions := t.partitions.insert partitionId owner }

/-- The removal of `a` touches `a` only. -/
structure RemovesOnly (t : MeshTopology) (a : NodeId) : Prop where
  /-- The routes to other nodes stay. -/
  routes : ∀ p b, t.partitions.lookup p = some b → b ≠ a →
    (t.removeNode a).partitions.lookup p = some b
  records : ∀ b, b ≠ a → (t.removeNode a).nodes.lookup b = t.nodes.lookup b
  noRoute : ∀ p, (t.removeNode a).partitions.lookup p ≠ some a
  noConnection : a ∉ (t.removeNode a).connections ∧
    ∀ b connections, (t.removeNode a).connections.lookup b = some connections → a ∉ connections
  /-- A partition that another node answers for is still answered for by that node. -/
  answers : ∀ p node, t.getNodeForPartition p = some node → t.partitions.lookup p ≠ some a →
    (t.removeNode a).getNodeForPartition p = some node

/-- The routes to `a` are those of its recorded partition, which nobody else owns. -/
structure HoldsOwn (t : MeshTopology) (a : NodeId) : Prop where
  recorded : ∀ p, t.partitions.lookup p = some a →
    ∃ node, t.nodes.lookup a = some node ∧ node.partitionId = p
  owned : ∀ node, t.nodes.lookup a = some node →
    ∀ b, t.partitions.lookup node.partitionId = some b → b = a

variable {t : MeshTopology} {a : NodeId}

theorem removeNode_of_none (h : t.nodes.lookup a = none) : t.removeNode a = t := by
  rw [removeNode, h]

/-- The route that a removal drops. -/
theorem lookup_partitions_removeNode {node : NodeInfo} (h : t.nodes.lookup a = some node)
    (p : UInt32) :
    (t.removeNode a).partitions.lookup p =
      if p = node.partitionId then none else t.partitions.lookup p := by
  rw [removeNode, h]
  exact HashMap.lookup_erase_eq t.partitions node.partitionId p

/-- A route to another node goes only with the recorded partition. -/
theorem HoldsOwn.routes (h : t.HoldsOwn a) {p : UInt32} {b : NodeId}
    (hb : t.partitions.lookup p = some b) (hne : b ≠ a) :
    (t.removeNode a).partitions.lookup p = some b := by
  cases hnode : t.nodes.lookup a with
  | none => rwa [removeNode_of_none hnode]
  | some node =>
      rw [lookup_partitions_removeNode hnode, if_neg, hb]
      rintro rfl
      exact hne (h.owned node hnode b hb)

theorem HoldsOwn.noRoute (h : t.HoldsOwn a) (p : UInt32) :
    (t.removeNode a).partitions.lookup p ≠ some a := by
  intro hp
  cases hnode : t.nodes.lookup a with
  | none =>
      rw [removeNode_of_none hnode] at hp
      obtain ⟨node, hsome, -⟩ := h.recorded p hp
      rw [hnode] at hsome
      cases hsome
  | some node =>
      rw [lookup_partitions_removeNode hnode] at hp
      split at hp
      · cases hp
      · rename_i hother
        obtain ⟨node', hsome, rfl⟩ := h.recorded p hp
        rw [hnode] at hsome
        cases hsome
        exact hother rfl

/-- Where the maps hold what they should, a removal touches one node only. -/
theorem HoldsOwn.removesOnly (h : t.HoldsOwn a) (hconnections : t.connections = ∅) :
    t.RemovesOnly a where
  routes := fun p b hb hne => h.routes hb hne
  records := by
    intro b hne
    rw [lookup_nodes_removeNode, if_neg hne]
  noRoute := h.noRoute
  noConnection := by
    have hnone : ∀ b, (t.removeNode a).connections.lookup b = none := by
      intro b
      cases hnode : t.nodes.lookup a with
      | none =>
          rw [removeNode_of_none hnode, hconnections]
          rfl
      | some node =>
          rw [removeNode, hnode]
          simp only [hconnections, HashMap.lookup_mapVals, HashMap.lookup_erase_eq]
          simp
    refine ⟨Finmap.lookup_eq_none.mp (hnone a), fun b connections hb => ?_⟩
    rw [hnone b] at hb
    cases hb
  answers := by
    intro p node hresolved howner
    obtain ⟨b, hb, hnode⟩ := Option.bind_eq_some_iff.mp hresolved
    have hne : b ≠ a := by
      rintro rfl
      exact howner hb
    rw [getNodeForPartition, h.routes hb hne, Option.bind_some, lookup_nodes_removeNode,
      if_neg hne]
    exact hnode

theorem RemovesOnly.holdsOwn (h : t.RemovesOnly a) : t.HoldsOwn a where
  recorded := by
    intro p hp
    have hgone := h.noRoute p
    cases hnode : t.nodes.lookup a with
    | none =>
        rw [removeNode_of_none hnode] at hgone
        exact absurd hp hgone
    | some node =>
        rw [lookup_partitions_removeNode hnode] at hgone
        refine ⟨node, rfl, ?_⟩
        by_contra hother
        exact hgone (by rw [if_neg (Ne.symm hother), hp])
  owned := by
    intro node hnode b hb
    by_contra hne
    have hstays := h.routes node.partitionId b hb hne
    rw [lookup_partitions_removeNode hnode, if_pos rfl] at hstays
    cases hstays

/-- **Step lemma.**  None of the operations connects two nodes. -/
theorem connections_apply (h : t.connections = ∅) (op : TopologyOp) :
    (t.apply op).connections = ∅ := by
  cases op with
  | addNode node => exact h
  | partitionUpdate partitionId owner => exact h
  | updateNode node =>
      show (t.updateNode node).connections = ∅
      unfold updateNode
      split
      · exact h
      · exact h
  | removeNode nodeId =>
      show (t.removeNode nodeId).connections = ∅
      unfold removeNode
      split
      · apply Finmap.ext_lookup
        intro b
        simp [h, HashMap.lookup_erase_eq]
      · exact h

theorem connections_foldl_apply (h : t.connections = ∅) (ops : List TopologyOp) :
    (ops.foldl apply t).connections = ∅ := by
  induction ops generalizing t with
  | nil => exact h
  | cons op ops ih => exact ih (connections_apply h op)

/-- **When a removal touches one node only.**  In every topology that additions, updates,
removals and PartitionUpdates lead to, the removal of `a` leaves the routes, records and
answers of all other nodes as they are and nothing that names `a`, exactly if the routes
to `a` are those of its recorded partition and no other node owns that partition. -/
theorem removes_only_iff (ops : List TopologyOp) (a : NodeId) :
    (ops.foldl apply new).RemovesOnly a ↔ (ops.foldl apply new).HoldsOwn a := by
  have hconnections : (ops.foldl apply new).connections = ∅ := connections_foldl_apply rfl ops
  constructor
  · exact fun h => h.holdsOwn
  · exact fun h => h.removesOnly hconnections

/-- Two nodes have announced partition 0, `a` before `b`. -/
def tookOver : List TopologyOp :=
  [.addNode (.new ⟨"a"⟩ (.v4 0x7f000001 50051) 0 2 .unixEpoch),
    .addNode (.new ⟨"b"⟩ (.v4 0x7f000001 50052) 0 2 .unixEpoch)]

/-- When `a` is removed, `b` loses its route. -/
theorem removal_takes_route_of_another :
    (tookOver.foldl apply new).partitions.lookup 0 = some ⟨"b"⟩ ∧
      ((tookOver.foldl apply new).removeNode ⟨"a"⟩).partitions.lookup 0 = none ∧
      ¬ (tookOver.foldl apply new).RemovesOnly ⟨"a"⟩ := by
  have hbefore : (tookOver.foldl apply new).partitions.lookup 0 = some ⟨"b"⟩ := by decide +kernel
  have hafter : ((tookOver.foldl apply new).removeNode ⟨"a"⟩).partitions.lookup 0 = none := by
    decide +kernel
  refine ⟨hbefore, hafter, fun h => ?_⟩
  have hstays := h.routes 0 ⟨"b"⟩ hbefore (by decide)
  rw [hafter] at hstays
  cases hstays

end MeshTopology

end Rafka
