/-
Rafka/Heartbeat.lean

Heartbeats and the cleanup of stale nodes (`crates/core/src/p2p_mesh.rs`).

A mesh keeps its peers alive by their heartbeats: a heartbeat refreshes
`last_seen` of the node it names, and the cleanup task removes the nodes whose
`last_seen` is older than `node_timeout`.  A heartbeat names the `node_id` of
its sender, though, and the NodeJoin of the same sender brings a record with
the other id, the one inside `node_info`.  So the heartbeats do not refresh the
record, and the node goes stale while it beats.

What does refresh the record is a heartbeat that names its id, or a record of
the same id that arrives in a NodeJoin, a NodeUpdate or a ClusterState; such a
record takes `last_seen` to the time it brings, back as well as forth.  Ages are
counted in whole seconds and compared with the whole seconds of `node_timeout`,
a record from the future makes the pass of the cleanup task panic, and
`remove_node` drops the partition of the removed node whoever owns it.

`never_evicted_iff`: a run evicts neither the node nor a route to it exactly
when every pass of the cleanup task either panics or finds the record refreshed
in time and no other stale node on a partition of the node.
-/
import Rafka.Mesh

namespace Rafka

/-! ### Ages -/

/-- A test that does not panic finds the age in whole seconds above the whole
seconds of the timeout. -/
theorem NodeInfo.isStale_iff {node : NodeInfo} {timeout : Duration} {now : EpochTime}
    (h : node.isStale timeout now ≠ none) :
    node.isStale timeout now = some true ↔
      node.lastSeen.toNat + timeout / 10 ^ 9 < (unixSecs now).toNat := by
  unfold NodeInfo.isStale at h ⊢
  split at h
  · exact absurd rfl h
  · rename_i hnow
    have hle : node.lastSeen ≤ unixSecs now := UInt64.not_lt.mp hnow
    rw [if_neg hnow, UInt64.toNat_sub_of_le _ _ hle, Option.some_inj, decide_eq_true_iff]
    omega

/-- A list of tests of which one panics. -/
theorem mapM_eq_none_iff {α β : Type} {f : α → Option β} {xs : List α} :
    xs.mapM f = none ↔ ∃ x ∈ xs, f x = none := by
  induction xs with
  | nil => simp
  | cons x xs ih =>
      rw [List.mapM_cons, List.exists_mem_cons_iff, ← ih]
      cases f x with
      | none => simp
      | some y => cases xs.mapM f <;> simp

/-- A list of tests all of which return. -/
theorem mem_zip_mapM_iff {α β : Type} {f : α → Option β} {xs : List α} {ys : List β}
    (h : xs.mapM f = some ys) {x : α} {y : β} :
    (x, y) ∈ xs.zip ys ↔ x ∈ xs ∧ f x = some y := by
  induction xs generalizing ys with
  | nil => simp
  | cons x' xs ih =>
      rw [List.mapM_cons] at h
      obtain ⟨y', hy', h⟩ := Option.bind_eq_some_iff.mp h
      obtain ⟨ys', hys', h⟩ := Option.bind_eq_some_iff.mp h
      cases h
      rw [List.zip_cons_cons, List.mem_cons, List.mem_cons, ih hys', Prod.mk.injEq]
      constructor
      · rintro (⟨rfl, rfl⟩ | ⟨hmem, hf⟩)
        · exact ⟨.inl rfl, hy'⟩
        · exact ⟨.inr hmem, hf⟩
      · rintro ⟨rfl | hmem, hf⟩
        · rw [hy'] at hf
          exact .inl ⟨rfl, (Option.some.inj hf).symm⟩
        · exact .inr ⟨hmem, hf⟩

/-! ### Removing many nodes -/

namespace MeshTopology

variable {t : MeshTopology}

theorem lookup_nodes_foldl_removeNode (t : MeshTopology) (ids : List NodeId) (y : NodeId) :
    (ids.foldl removeNode t).nodes.lookup y = if y ∈ ids then none else t.nodes.lookup y := by
  induction ids generalizing t with
  | nil => rfl
  | cons x ids ih =>
      rw [List.foldl_cons, ih, lookup_nodes_removeNode]
      by_cases hy : y = x
      · simp [hy]
      · simp [hy]

/-- A route stays if no removed node is on its partition. -/
theorem lookup_partitions_foldl_removeNode {ids : List NodeId} {p : UInt32}
    (h : ∀ x ∈ ids, ∀ node, t.nodes.lookup x = some node → node.partitionId ≠ p) :
    (ids.foldl removeNode t).partitions.lookup p = t.partitions.lookup p := by
  induction ids generalizing t with
  | nil => rfl
  | cons x ids ih =>
      rw [List.foldl_cons, ih]
      · unfold removeNode
        cases hx : t.nodes.lookup x with
        | none => rfl
        | some node =>
            have hne : p ≠ node.partitionId := Ne.symm (h x List.mem_cons_self node hx)
            show (t.partitions.erase node.partitionId).lookup p = _
            rw [HashMap.lookup_erase_eq, if_neg hne]
      · -- what is left of the nodes was there before
        intro y hy node hnode
        rw [lookup_nodes_removeNode] at hnode
        split at hnode
        · cases hnode
        · exact h y (List.mem_cons_of_mem x hy) node hnode

theorem lookup_partitions_foldl_removeNode_none {ids : List NodeId} {p : UInt32}
    (h : t.partitions.lookup p = none) :
    (ids.foldl removeNode t).partitions.lookup p = none := by
  induction ids generalizing t with
  | nil => exact h
  | cons x ids ih =>
      refine ih ?_
      unfold removeNode
      cases t.nodes.lookup x with
      | none => exact h
      | some node =>
          show (t.partitions.erase node.partitionId).lookup p = none
          rw [HashMap.lookup_erase_eq, h, ite_self]

/-- The partition of a removed node has no owner left. -/
theorem lookup_partitions_of_removed {ids : List NodeId} {x : NodeId} {node : NodeInfo}
    (hx : x ∈ ids) (hnode : t.nodes.lookup x = some node) :
    (ids.foldl removeNode t).partitions.lookup node.partitionId = none := by
  induction ids generalizing t with
  | nil => cases hx
  | cons y ids ih =>
      rw [List.foldl_cons]
      by_cases hxy : x = y
      · -- it goes here, and no later removal brings it back
        subst hxy
        apply lookup_partitions_foldl_removeNode_none
        unfold removeNode
        rw [hnode]
        exact Finmap.lookup_erase _ _
      · apply ih ((List.mem_cons.mp hx).resolve_left hxy)
        rw [lookup_nodes_removeNode, if_neg hxy, hnode]

/-- Every record is kept under its own id. -/
def Keyed (t : MeshTopology) : Prop := ∀ n node, t.nodes.lookup n = some node → node.id = n

theorem Keyed.addNode (h : t.Keyed) (node : NodeInfo) : (t.addNode node).Keyed := by
  intro n node' hnode
  simp only [MeshTopology.addNode, HashMap.lookup_insert_eq] at hnode
  split at hnode
  · rename_i hn
    cases hnode
    exact hn.symm
  · exact h n node' hnode

theorem Keyed.foldl_addNode (h : t.Keyed) (nodes : List NodeInfo) :
    (nodes.foldl MeshTopology.addNode t).Keyed := by
  induction nodes generalizing t with
  | nil => exact h
  | cons node nodes ih => exact ih (h.addNode node)

theorem Keyed.foldl_removeNode (h : t.Keyed) (ids : List NodeId) :
    (ids.foldl MeshTopology.removeNode t).Keyed := by
  intro n node hnode
  rw [lookup_nodes_foldl_removeNode] at hnode
  split at hnode
  · cases hnode
  · exact h n node hnode

end MeshTopology

namespace P2PMesh

open MeshTopology

variable {m : P2PMesh}

theorem Keyed.receive (h : m.topology.Keyed) (now : EpochTime)
    (messageType : GossipMessageType) : (m.receive now messageType).topology.Keyed := by
  cases messageType with
  | nodeJoin node => exact h.addNode node
  | nodeLeave nodeId => exact h.foldl_removeNode [nodeId]
  | nodeUpdate node =>
      rw [topology_nodeUpdate]
      split
      · exact h.foldl_addNode [node]
      · exact h
  | heartbeat nodeId =>
      intro n node hnode
      simp only [P2PMesh.receive, HashMap.lookup_modify] at hnode
      split at hnode
      · obtain ⟨node', hnode', rfl⟩ := Option.map_eq_some_iff.mp hnode
        exact h n node' hnode'
      · exact h n node hnode
  | partitionUpdate p owner => exact h
  | clusterState nodes =>
      rw [topology_clusterState]
      exact h.foldl_addNode _

/-- What a pass of the cleanup task does: nothing, if a test panics, or it removes
the ids of the stale records. -/
theorem cleanup_cases (m : P2PMesh) (order : List NodeId) (now : NodeId → EpochTime) :
    (m.cleanup order now = m ∧ ∃ entry ∈ HashMap.iter order m.topology.nodes,
        entry.2.isStale m.nodeTimeout (now entry.2.id) = none) ∨
      ∃ ids : List NodeId, m.cleanup order now =
          { m with topology := ids.foldl MeshTopology.removeNode m.topology } ∧
        (∀ entry ∈ HashMap.iter order m.topology.nodes,
          entry.2.isStale m.nodeTimeout (now entry.2.id) ≠ none) ∧
        ∀ x, x ∈ ids ↔ ∃ entry ∈ HashMap.iter order m.topology.nodes, entry.2.id = x ∧
          entry.2.isStale m.nodeTimeout (now entry.2.id) = some true := by
  unfold cleanup
  dsimp only
  split
  · rename_i hpanic
    obtain ⟨node, hnode, htest⟩ := mapM_eq_none_iff.mp hpanic
    obtain ⟨entry, hentry, rfl⟩ := List.mem_map.mp hnode
    exact .inl ⟨rfl, entry, hentry, htest⟩
  · rename_i stale hstale
    refine .inr ⟨_, rfl, ?_, ?_⟩
    · intro entry hentry htest
      have hpanic : (List.map Prod.snd (HashMap.iter order m.topology.nodes)).mapM
          (fun node => node.isStale m.nodeTimeout (now node.id)) = none :=
        mapM_eq_none_iff.mpr ⟨entry.2, List.mem_map_of_mem hentry, htest⟩
      rw [hstale] at hpanic
      cases hpanic
    · intro x
      constructor
      · intro hx
        obtain ⟨⟨node, test⟩, hzip, rfl⟩ := List.mem_map.mp hx
        obtain ⟨hzip, htest⟩ := List.mem_filter.mp hzip
        cases htest
        obtain ⟨hnode, htest⟩ := (mem_zip_mapM_iff hstale).mp hzip
        obtain ⟨entry, hentry, rfl⟩ := List.mem_map.mp hnode
        exact ⟨entry, hentry, rfl, htest⟩
      · rintro ⟨entry, hentry, rfl, htest⟩
        refine List.mem_map.mpr ⟨(entry.2, true), List.mem_filter.mpr ⟨?_, rfl⟩, rfl⟩
        exact (mem_zip_mapM_iff hstale).mpr ⟨List.mem_map_of_mem hentry, htest⟩

/-- What a pass does where every record is kept under its own id and the order
lists them all. -/
theorem cleanup_of_keyed {order : List NodeId} (hkeyed : m.topology.Keyed)
    (horder : HashMap.Enumerates order m.topology.nodes) (now : NodeId → EpochTime) :
    (m.cleanup order now = m ∧ ∃ n node, m.topology.nodes.lookup n = some node ∧
        node.isStale m.nodeTimeout (now n) = none) ∨
      ∃ ids : List NodeId, m.cleanup order now =
          { m with topology := ids.foldl MeshTopology.removeNode m.topology } ∧
        (∀ n node, m.topology.nodes.lookup n = some node →
          node.isStale m.nodeTimeout (now n) ≠ none) ∧
        ∀ n node, m.topology.nodes.lookup n = some node →
          (n ∈ ids ↔ node.isStale m.nodeTimeout (now n) = some true) := by
  rcases cleanup_cases m order now with ⟨hsame, ⟨n, node⟩, hentry, htest⟩ |
    ⟨ids, hremoved, htests, hids⟩
  · have hnode := horder.mem_iter.mp hentry
    exact .inl ⟨hsame, n, node, hnode, hkeyed n node hnode ▸ htest⟩
  · refine .inr ⟨ids, hremoved, ?_, ?_⟩
    · intro n node hnode
      exact hkeyed n node hnode ▸ htests (n, node) (horder.mem_iter.mpr hnode)
    · intro n node hnode
      rw [hids]
      constructor
      · rintro ⟨⟨n', node'⟩, hentry, rfl, hstale⟩
        have hnode' := horder.mem_iter.mp hentry
        -- the record under the id of a stale record is that record
        rw [hkeyed n' node' hnode', hnode'] at hnode
        cases hnode
        exact hstale
      · intro hstale
        refine ⟨(n, node), horder.mem_iter.mpr hnode, hkeyed n node hnode, ?_⟩
        exact (hkeyed n node hnode).symm ▸ hstale

theorem Keyed.step (h : m.topology.Keyed) (op : MeshOp) : (m.step op).topology.Keyed := by
  cases op with
  | gossip message now =>
      show (m.processGossipMessage message now).topology.Keyed
      rcases topology_processGossipMessage m message now with ⟨-, htop⟩ | ⟨-, hsame⟩
      · rw [htop]
        exact Keyed.receive h now message.messageType
      · rwa [hsame]
  | cleanup order now =>
      show (m.cleanup order now).topology.Keyed
      rcases cleanup_cases m order now with ⟨hsame, -⟩ | ⟨ids, hremoved, -⟩
      · rwa [hsame]
      · rw [hremoved]
        exact h.foldl_removeNode ids
  | leaveCluster now => exact h.foldl_removeNode [m.nodeId]

theorem nodeId_step (m : P2PMesh) (op : MeshOp) : (m.step op).nodeId = m.nodeId := by
  cases op with
  | gossip message now => exact (config_processGossipMessage m message now).1
  | cleanup order now =>
      show (m.cleanup order now).nodeId = _
      rcases cleanup_cases m order now with ⟨hsame, -⟩ | ⟨ids, hremoved, -⟩
      · rw [hsame]
      · rw [hremoved]
  | leaveCluster now => rfl

/-! ### A mesh that hears another -/

/-- The NodeJoin that `join_cluster` sends. -/
def joinMessage (a : P2PMesh) (now : SystemTime) : GossipMessage where
  fromNode := a.nodeId
  messageType := .nodeJoin a.nodeInfo
  timestamp := now
  ttl := 5

/-- The message that the heartbeat task of `P2PMesh::start` sends. -/
def heartbeatMessage (a : P2PMesh) (now : SystemTime) : GossipMessage where
  fromNode := a.nodeId
  messageType := .heartbeat a.nodeId
  timestamp := now
  ttl := 3

end P2PMesh

/-- The `last_seen` that a message leaves in the record of the node `id`, if it
touches it: that of the last record it brings, or the clock of a heartbeat that
names `id`. -/
def GossipMessageType.refreshes (id : NodeId) (now : EpochTime)
    (messageType : GossipMessageType) : Option UInt64 :=
  match MeshTopology.home messageType.records id with
  | some node => some node.lastSeen
  | none => if messageType.beats id then some (unixSecs now) else none

/-- A mesh that listens to another one: when it last heard a heartbeat of it, and
the time to which its record was refreshed last. -/
structure Hearing where
  mesh : P2PMesh
  heard : EpochTime
  refreshed : UInt64

namespace Hearing

open MeshTopology P2PMesh

variable (a : P2PMesh)

/-- One operation of the mesh. -/
def step (s : Hearing) (op : MeshOp) : Hearing where
  mesh := s.mesh.step op
  heard :=
    match op with
    | .gossip message now =>
        if s.mesh.Accepts message ∧ message.messageType.beats a.nodeId then now else s.heard
    | _ => s.heard
  refreshed :=
    match op with
    | .gossip message now =>
        if s.mesh.Accepts message then
          (message.messageType.refreshes a.nodeInfo.id now).getD s.refreshed
        else s.refreshed
    | _ => s.refreshed

/-- No NodeLeave of `a` is received, and a cleanup visits every record. -/
def Lawful (s : Hearing) : MeshOp → Prop
  | .gossip message _ => s.mesh.Accepts message →
      ∀ n, message.messageType = .nodeLeave n → n ≠ a.nodeId ∧ n ≠ a.nodeInfo.id
  | .cleanup order _ => HashMap.Enumerates order s.mesh.topology.nodes
  | .leaveCluster _ => True

/-- The node `a` beats: no cleanup comes later than the timeout after its last
heartbeat. -/
def Heartbeating (s : Hearing) : MeshOp → Prop
  | .cleanup _ now => (now a.nodeInfo.id).nanos ≤ s.heard.nanos + s.mesh.nodeTimeout
  | _ => True

/-- A cleanup finds `a` alive: a record from the future ends the pass, or the record
of `a` was refreshed within the whole seconds of the timeout and no other stale
node is on a partition that `a` owns under one of its ids. -/
def Spares (s : Hearing) : MeshOp → Prop
  | .cleanup _ now =>
      (∃ n node, s.mesh.topology.nodes.lookup n = some node ∧
          node.isStale s.mesh.nodeTimeout (now n) = none) ∨
        ((unixSecs (now a.nodeInfo.id)).toNat ≤
            s.refreshed.toNat + s.mesh.nodeTimeout / 10 ^ 9 ∧
          ∀ n node, s.mesh.topology.nodes.lookup n = some node → n ≠ a.nodeInfo.id →
            node.isStale s.mesh.nodeTimeout (now n) = some true →
              s.mesh.topology.partitions.lookup node.partitionId ≠ some a.nodeId ∧
                s.mesh.topology.partitions.lookup node.partitionId ≠ some a.nodeInfo.id)
  | _ => True

/-- A cleanup removes neither the record of `a` nor a route to it. -/
def Keeps (s : Hearing) : MeshOp → Prop
  | .cleanup order now =>
      (s.mesh.cleanup order now).topology.nodes.lookup a.nodeInfo.id =
          s.mesh.topology.nodes.lookup a.nodeInfo.id ∧
        ∀ p n, n = a.nodeId ∨ n = a.nodeInfo.id →
          s.mesh.topology.partitions.lookup p = some n →
            (s.mesh.cleanup order now).topology.partitions.lookup p = some n
  | _ => True

/-- The invariant of the runs: `a` has a record, last seen when it was refreshed
last. -/
structure Inv (s : Hearing) : Prop where
  keyed : s.mesh.topology.Keyed
  other : s.mesh.nodeId ≠ a.nodeInfo.id
  record : ∃ node, s.mesh.topology.nodes.lookup a.nodeInfo.id = some node ∧
    node.lastSeen = s.refreshed

variable {a} {s : Hearing}

/-! ### Messages -/

/-- The records that are added refresh that of the node `id`. -/
theorem refreshed_foldl_addNode {t : MeshTopology} {id : NodeId} {seen : UInt64}
    (h : ∃ node, t.nodes.lookup id = some node ∧ node.lastSeen = seen)
    (nodes : List NodeInfo) :
    ∃ node, (nodes.foldl addNode t).nodes.lookup id = some node ∧
      node.lastSeen = ((home nodes id).map NodeInfo.lastSeen).getD seen := by
  rw [lookup_nodes_foldl_addNode]
  cases home nodes id with
  | none => exact h
  | some node => exact ⟨node, rfl, rfl⟩

/-- The records of another id do not matter. -/
theorem home_filter {nodes : List NodeInfo} {x id : NodeId} (h : x ≠ id) :
    home (nodes.filter fun node => node.id ≠ x) id = home nodes id := by
  rw [home, home, ← List.filter_reverse, List.find?_filter]
  congr 1
  funext node
  by_cases hid : node.id = id
  · simp [hid, Ne.symm h]
  · simp [hid]

/-- A message that is no heartbeat refreshes by its records. -/
theorem refreshes_of_not_beats {messageType : GossipMessageType} {id : NodeId}
    (h : messageType.beats id = false) (now : EpochTime) (seen : UInt64) :
    (messageType.refreshes id now).getD seen =
      ((home messageType.records id).map NodeInfo.lastSeen).getD seen := by
  unfold GossipMessageType.refreshes
  cases home messageType.records id with
  | none => simp [h]
  | some node => rfl

/-- **Step lemma** for a message that is accepted. -/
theorem Inv.receive (hs : Inv a s) {messageType : GossipMessageType} (now : EpochTime)
    (hleave : ∀ n, messageType = .nodeLeave n → n ≠ a.nodeInfo.id) :
    ∃ node, (s.mesh.receive now messageType).topology.nodes.lookup a.nodeInfo.id = some node ∧
      node.lastSeen = (messageType.refreshes a.nodeInfo.id now).getD s.refreshed := by
  cases messageType with
  | nodeJoin node =>
      rw [refreshes_of_not_beats rfl]
      exact refreshed_foldl_addNode hs.record [node]
  | nodeUpdate node =>
      rw [refreshes_of_not_beats rfl, topology_nodeUpdate]
      split
      · exact refreshed_foldl_addNode hs.record [node]
      · -- the record of `a` is known, so this is another one
        rename_i hunknown
        have hne : node.id ≠ a.nodeInfo.id := by
          intro hid
          obtain ⟨known, hknown, -⟩ := hs.record
          exact hunknown (hid ▸ Finmap.mem_of_lookup_eq_some hknown)
        have hhome : home [node] a.nodeInfo.id = none := by simp [home, hne]
        rw [show (GossipMessageType.nodeUpdate node).records = [node] from rfl, hhome]
        exact hs.record
  | clusterState nodes =>
      rw [refreshes_of_not_beats rfl, topology_clusterState]
      have h := refreshed_foldl_addNode hs.record
        (nodes.filter fun node => node.id ≠ s.mesh.nodeId)
      rwa [home_filter hs.other] at h
  | partitionUpdate p owner =>
      rw [refreshes_of_not_beats rfl]
      exact hs.record
  | nodeLeave n =>
      obtain ⟨node, hnode, hseen⟩ := hs.record
      rw [refreshes_of_not_beats rfl]
      refine ⟨node, ?_, hseen⟩
      show (s.mesh.topology.removeNode n).nodes.lookup a.nodeInfo.id = some node
      rw [lookup_nodes_removeNode, if_neg (Ne.symm (hleave n rfl)), hnode]
  | heartbeat n =>
      obtain ⟨node, hnode, hseen⟩ := hs.record
      show ∃ node', (HashMap.modify n (fun node => node.updateLastSeen now)
        s.mesh.topology.nodes).lookup a.nodeInfo.id = some node' ∧ _
      rw [HashMap.lookup_modify, hnode]
      by_cases hn : n = a.nodeInfo.id
      · refine ⟨node.updateLastSeen now, ?_, ?_⟩
        · rw [if_pos hn.symm]
          rfl
        · simp [GossipMessageType.refreshes, GossipMessageType.records, home,
            GossipMessageType.beats, hn, NodeInfo.updateLastSeen]
      · refine ⟨node, if_neg (Ne.symm hn), ?_⟩
        rw [refreshes_of_not_beats (by simp [GossipMessageType.beats, hn])]
        exact hseen

/-! ### Cleanups -/

/-- **Step lemma** for a cleanup: it keeps the node and its routes exactly when it
finds it alive. -/
theorem Inv.keeps_iff (hs : Inv a s) {order : List NodeId} {now : NodeId → EpochTime}
    (horder : HashMap.Enumerates order s.mesh.topology.nodes) :
    Keeps a s (.cleanup order now) ↔ Spares a s (.cleanup order now) := by
  obtain ⟨own, hown, hseen⟩ := hs.record
  rcases cleanup_of_keyed hs.keyed horder now with ⟨hpanic, htest⟩ |
    ⟨ids, hremoved, htests, hids⟩
  · refine iff_of_true ?_ (.inl htest)
    rw [Keeps, hpanic]
    exact ⟨rfl, fun _ _ _ h => h⟩
  · -- every test returned, so the age of each record decides
    have hfresh : a.nodeInfo.id ∉ ids ↔ (unixSecs (now a.nodeInfo.id)).toNat ≤
        s.refreshed.toNat + s.mesh.nodeTimeout / 10 ^ 9 := by
      rw [hids _ _ hown, NodeInfo.isStale_iff (htests _ _ hown), hseen, not_lt]
    rw [Keeps, Spares, hremoved, ← hfresh]
    constructor
    · rintro ⟨hrecord, hroutes⟩
      refine .inr ⟨?_, ?_⟩
      · intro hmem
        rw [lookup_nodes_foldl_removeNode, if_pos hmem, hown] at hrecord
        cases hrecord
      · intro n node hnode _ hstale
        have hgone := lookup_partitions_of_removed ((hids n node hnode).mpr hstale) hnode
        constructor
        · intro howner
          have := hroutes _ _ (.inl rfl) howner
          rw [hgone] at this
          cases this
        · intro howner
          have := hroutes _ _ (.inr rfl) howner
          rw [hgone] at this
          cases this
    · rintro (⟨n, node, hnode, hpanic⟩ | ⟨hmem, hothers⟩)
      · exact absurd hpanic (htests n node hnode)
      · refine ⟨by rw [lookup_nodes_foldl_removeNode, if_neg hmem], ?_⟩
        intro p n hn howner
        rw [lookup_partitions_foldl_removeNode, howner]
        rintro x hx node hnode rfl
        have hne : x ≠ a.nodeInfo.id := fun h => hmem (h ▸ hx)
        have hroute := hothers x node hnode hne ((hids x node hnode).mp hx)
        rcases hn with rfl | rfl
        · exact hroute.1 howner
        · exact hroute.2 howner

/-- **Step lemma.** -/
theorem Inv.step (hs : Inv a s) {op : MeshOp} (hlawful : Lawful a s op)
    (hkeeps : Keeps a s op) : Inv a (s.step a op) := by
  refine ⟨Keyed.step hs.keyed op, ?_, ?_⟩
  · show (s.mesh.step op).nodeId ≠ a.nodeInfo.id
    rw [nodeId_step]
    exact hs.other
  · cases op with
    | gossip message now =>
        show ∃ node, (s.mesh.processGossipMessage message now).topology.nodes.lookup
          a.nodeInfo.id = some node ∧ _
        rcases topology_processGossipMessage s.mesh message now with
          ⟨haccepts, htop⟩ | ⟨hignored, hmesh⟩
        · rw [htop]
          simpa [Hearing.step, haccepts] using
            hs.receive now fun n hn => (hlawful haccepts n hn).2
        · rw [hmesh]
          simpa [Hearing.step, hignored] using hs.record
    | cleanup order now =>
        show ∃ node, (s.mesh.cleanup order now).topology.nodes.lookup a.nodeInfo.id =
          some node ∧ _
        rw [hkeeps.1]
        exact hs.record
    | leaveCluster now =>
        show ∃ node, (s.mesh.topology.removeNode s.mesh.nodeId).nodes.lookup a.nodeInfo.id =
          some node ∧ _
        rw [lookup_nodes_removeNode, if_neg (Ne.symm hs.other)]
        exact hs.record

/-! ### Whole runs -/

/-- A mesh at any point of its life. -/
theorem keyed_run (m : P2PMesh) (h : m.topology.Keyed) (life : List MeshOp) :
    (life.foldl P2PMesh.step m).topology.Keyed ∧
      (life.foldl P2PMesh.step m).nodeId = m.nodeId := by
  induction life generalizing m with
  | nil => exact ⟨h, rfl⟩
  | cons op life ih =>
      obtain ⟨hkeyed, hid⟩ := ih (m.step op) (Keyed.step h op)
      exact ⟨hkeyed, hid.trans (nodeId_step m op)⟩

theorem keyed_start (nodeId infoId : NodeId) (address : SocketAddr)
    (partitionId totalPartitions : UInt32) (nodeTimeout : Duration) (now : EpochTime) :
    (P2PMesh.new nodeId infoId address partitionId totalPartitions nodeTimeout
      now).start.topology.Keyed := by
  have hempty : MeshTopology.new.Keyed := by
    intro n node hnode
    simp [MeshTopology.new] at hnode
  exact hempty.addNode _

/-- The mesh `b` has received the NodeJoin of `a`, which brings the record of `a`. -/
def afterJoin (a b : P2PMesh) (sent : SystemTime) (received : EpochTime) : Hearing where
  mesh := b.step (.gossip (a.joinMessage sent) received)
  heard := received
  refreshed := a.nodeInfo.lastSeen

theorem Inv.afterJoin {b : P2PMesh} (hkeyed : b.topology.Keyed)
    (hother : a.nodeId ≠ b.nodeId) (hinfo : a.nodeInfo.id ≠ b.nodeId) (sent : SystemTime)
    (received : EpochTime) : Inv a (afterJoin a b sent received) := by
  refine ⟨Keyed.step hkeyed _, ?_, a.nodeInfo, ?_, rfl⟩
  · show (b.step (.gossip (a.joinMessage sent) received)).nodeId ≠ a.nodeInfo.id
    rw [nodeId_step]
    exact Ne.symm hinfo
  · show (b.processGossipMessage (a.joinMessage sent) received).topology.nodes.lookup _ = _
    rcases topology_processGossipMessage b (a.joinMessage sent) received with
      ⟨-, htop⟩ | ⟨hignored, -⟩
    · rw [htop]
      exact Finmap.lookup_insert _
    · have hlives : (a.joinMessage sent).ttl ≠ 0 := by
        show (5 : UInt32) ≠ 0
        decide
      exact absurd ⟨hother, hlives⟩ hignored

/-- **A node is never evicted** exactly when every cleanup finds it alive: from the
NodeJoin of `a` on, in every run of a mesh in which `a` does not leave, no cleanup
removes the record of `a` or a route to it iff each of them spares `a`. -/
theorem never_evicted_iff {a : P2PMesh} (nodeId infoId : NodeId) (address : SocketAddr)
    (partitionId totalPartitions : UInt32) (nodeTimeout : Duration) (started : EpochTime)
    (life : List MeshOp) (hother : a.nodeId ≠ nodeId) (hinfo : a.nodeInfo.id ≠ nodeId)
    (sent : SystemTime) (received : EpochTime) {ops : List MeshOp}
    (hlawful : Along (step a) (Lawful a) (afterJoin a (life.foldl P2PMesh.step
      (P2PMesh.new nodeId infoId address partitionId totalPartitions nodeTimeout
        started).start) sent received) ops) :
    Along (step a) (Keeps a) (afterJoin a (life.foldl P2PMesh.step
        (P2PMesh.new nodeId infoId address partitionId totalPartitions nodeTimeout
          started).start) sent received) ops ↔
      Along (step a) (Spares a) (afterJoin a (life.foldl P2PMesh.step
        (P2PMesh.new nodeId infoId address partitionId totalPartitions nodeTimeout
          started).start) sent received) ops := by
  obtain ⟨hkeyed, hid⟩ := keyed_run _ (keyed_start nodeId infoId address partitionId
    totalPartitions nodeTimeout started) life
  have hstart := Inv.afterJoin (a := a) hkeyed (hid.symm ▸ hother) (hid.symm ▸ hinfo) sent
    received
  -- only a cleanup is in question
  have hexact (s : Hearing) (op : MeshOp) (hs : Inv a s) (hop : Lawful a s op) :
      Keeps a s op ↔ Spares a s op := by
    cases op with
    | gossip message now => exact Iff.rfl
    | cleanup order now => exact hs.keeps_iff hop
    | leaveCluster now => exact Iff.rfl
  constructor
  · intro hkeeps
    refine Along.of_along hstart (hlawful.and hkeeps) ?_ ?_
    · intro s op hs hop
      exact hs.step hop.1 hop.2
    · intro s op hs hop
      exact (hexact s op hs hop.1).mp hop.2
  · intro hspares
    refine Along.of_along hstart (hlawful.and hspares) ?_ ?_
    · intro s op hs hop
      exact hs.step hop.1 ((hexact s op hs hop.1).mpr hop.2)
    · intro s op hs hop
      exact (hexact s op hs hop.1).mpr hop.2

/-- A mesh for partition 1 of two, with its two ids. -/
def beatingMesh : P2PMesh :=
  P2PMesh.new ⟨"a"⟩ ⟨"r"⟩ (.v4 0x7f000001 50052) 1 2 (Duration.fromSecs 30) .unixEpoch

/-- A mesh for partition 0 of two, started at the same time. -/
def hearingMesh : P2PMesh :=
  (P2PMesh.new ⟨"b"⟩ ⟨"s"⟩ (.v4 0x7f000001 50051) 0 2 (Duration.fromSecs 30) .unixEpoch).start

/-- Heartbeats after 20 and after 40 seconds, and a cleanup after 45. -/
def beatingRun (between : List MeshOp) : List MeshOp :=
  .gossip (beatingMesh.heartbeatMessage .unixEpoch) ⟨20 * 10 ^ 9, by decide⟩ :: between ++
    [.gossip (beatingMesh.heartbeatMessage .unixEpoch) ⟨40 * 10 ^ 9, by decide⟩,
     .cleanup [⟨"s"⟩, ⟨"r"⟩] fun _ => ⟨45 * 10 ^ 9, by decide⟩]

/-- A record of `beatingMesh` from second 25, received a second later. -/
def beatingUpdate : MeshOp :=
  .gossip
    { fromNode := beatingMesh.nodeId
      messageType := .nodeUpdate { beatingMesh.nodeInfo with lastSeen := 25 }
      timestamp := .unixEpoch
      ttl := 3 }
    ⟨26 * 10 ^ 9, by decide⟩

/-- That no other node goes stale on a partition of `a` can be tested. -/
theorem spares_of_any {order : List NodeId} {now : NodeId → EpochTime}
    (htime : (unixSecs (now a.nodeInfo.id)).toNat ≤
      s.refreshed.toNat + s.mesh.nodeTimeout / 10 ^ 9)
    (h : Finmap.any (fun n node =>
      decide (n ≠ a.nodeInfo.id ∧ node.isStale s.mesh.nodeTimeout (now n) = some true ∧
        (s.mesh.topology.partitions.lookup node.partitionId = some a.nodeId ∨
          s.mesh.topology.partitions.lookup node.partitionId = some a.nodeInfo.id)))
      s.mesh.topology.nodes = false) : Spares a s (.cleanup order now) := by
  refine .inr ⟨htime, fun n node hnode hne hstale => ?_⟩
  rw [← Bool.not_eq_true] at h
  refine not_or.mp fun hroute => h (HashMap.any_eq_true.mpr ⟨n, node, hnode, ?_⟩)
  exact decide_eq_true ⟨hne, hstale, hroute⟩

/-- `never_evicted_iff` at `beatingRun` with an update: the cleanup finds the record
of second 25 and removes only the record of the hearing mesh itself. -/
theorem beatingRun_keeps :
    Along (step beatingMesh) (Lawful beatingMesh)
        (afterJoin beatingMesh hearingMesh .unixEpoch .unixEpoch) (beatingRun [beatingUpdate]) ∧
      Along (step beatingMesh) (Keeps beatingMesh)
        (afterJoin beatingMesh hearingMesh .unixEpoch .unixEpoch)
        (beatingRun [beatingUpdate]) := by
  have hlawful : Along (step beatingMesh) (Lawful beatingMesh)
      (afterJoin beatingMesh hearingMesh .unixEpoch .unixEpoch)
      (beatingRun [beatingUpdate]) := by
    refine ⟨fun _ n hn => ?_, fun _ n hn => ?_, fun _ n hn => ?_, ?_, trivial⟩
    · cases hn
    · cases hn
    · cases hn
    · show HashMap.Enumerates _ _
      decide +kernel
  refine ⟨hlawful, (never_evicted_iff ⟨"b"⟩ ⟨"s"⟩ (.v4 0x7f000001 50051) 0 2
    (Duration.fromSecs 30) .unixEpoch [] (by decide) (by decide) .unixEpoch .unixEpoch
    hlawful).mpr ⟨trivial, trivial, trivial, ?_, trivial⟩⟩
  exact spares_of_any (by decide +kernel) (by decide +kernel)

/-- A mesh beats twice within 30 seconds and is evicted: its record, kept under `r`,
is not refreshed by the heartbeats of `a`. -/
theorem beating_node_evicted :
    Along (step beatingMesh) (Lawful beatingMesh)
        (afterJoin beatingMesh hearingMesh .unixEpoch .unixEpoch) (beatingRun []) ∧
      Along (step beatingMesh) (Heartbeating beatingMesh)
        (afterJoin beatingMesh hearingMesh .unixEpoch .unixEpoch) (beatingRun []) ∧
      ((afterJoin beatingMesh hearingMesh .unixEpoch
        .unixEpoch).mesh.topology.getNodeForPartition 1).isSome ∧
      ((beatingRun []).foldl (step beatingMesh) (afterJoin beatingMesh hearingMesh .unixEpoch
        .unixEpoch)).mesh.topology.nodes.lookup ⟨"r"⟩ = none ∧
      ((beatingRun []).foldl (step beatingMesh) (afterJoin beatingMesh hearingMesh .unixEpoch
        .unixEpoch)).mesh.topology.partitions.lookup 1 = none ∧
      ¬ Along (step beatingMesh) (Keeps beatingMesh)
        (afterJoin beatingMesh hearingMesh .unixEpoch .unixEpoch) (beatingRun []) := by
  have hgone : ((beatingRun []).foldl (step beatingMesh) (afterJoin beatingMesh hearingMesh
      .unixEpoch .unixEpoch)).mesh.topology.nodes.lookup ⟨"r"⟩ = none := by
    decide +kernel
  have hbefore : (((beatingRun []).take 2).foldl (step beatingMesh) (afterJoin beatingMesh
      hearingMesh .unixEpoch .unixEpoch)).mesh.topology.nodes.lookup ⟨"r"⟩ ≠ none := by
    decide +kernel
  refine ⟨⟨fun _ n hn => ?_, fun _ n hn => ?_, ?_, trivial⟩, ⟨trivial, trivial, ?_, trivial⟩,
    by decide +kernel, hgone, by decide +kernel, ?_⟩
  · cases hn
  · cases hn
  · show HashMap.Enumerates _ _
    decide +kernel
  · show (_ : Nat) ≤ _
    decide +kernel
  · rintro ⟨-, -, ⟨hkept, -⟩, -⟩
    exact hbefore (hkept.symm.trans hgone)

end Hearing

end Rafka
