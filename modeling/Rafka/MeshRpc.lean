/-
Rafka/MeshRpc.lean

The mesh as other brokers reach it: the handlers `join_mesh`, `leave_mesh` and
`gossip_message` (`crates/broker/src/broker.rs`).

Each of them translates a request into an operation on the topology, and fills
in what the request does not carry.  `join_mesh` answers "Successfully joined
mesh" and adds nobody; `leave_mesh` makes the *local* node leave; and a
NODE_JOIN adds a record under an id drawn on the spot, since the request brings
none.  Only NODE_LEAVE acts on the node that sent it.

`membership_iff` says which runs of requests take effect for their senders and
for nobody else.  `join_mesh` does so only for a node that is known with the
partition it announces, `leave_mesh` only where neither the sender nor the
local id is known.
-/
import Rafka.MeshSync

namespace Rafka

/-! ### Requests -/

/-- `JoinMeshRequest`. -/
structure JoinMeshRequest where
  nodeId : String
  address : String
  port : Int32
  partitionId : Int32
  totalPartitions : Int32
  bootstrapNodes : List String

/-- `JoinMeshResponse`. -/
structure JoinMeshResponse where
  success : Bool
  message : String
  existingNodes : List MeshNodeInfo

/-- `LeaveMeshRequest`. -/
structure LeaveMeshRequest where
  nodeId : String

/-- `LeaveMeshResponse`. -/
structure LeaveMeshResponse where
  success : Bool
  message : String

/-- `GossipMessageRequest`; the message type is the number on the wire. -/
structure GossipMessageRequest where
  fromNodeId : String
  messageType : Int32
  timestamp : Int64
  ttl : Int32

/-- `GossipMessageResponse`. -/
structure GossipMessageResponse where
  success : Bool
  message : String

/-- `SystemTime::UNIX_EPOCH + Duration::from_secs(secs)`, which panics where it
overflows. -/
def SystemTime.ofUnixSecs (secs : UInt64) : Option SystemTime :=
  if h : secs.toNat < 2 ^ 63 then
    some ⟨secs.toNat * 10 ^ 9, by omega, by omega⟩
  else none

/-! ### The handlers

They run on what the broker keeps as its mesh, `none` until it is initialised.
`none` as a result is a panic. -/

namespace MeshRpc

/-- `Broker::join_mesh`.  The request is only printed. -/
def joinMesh (ipText : IpAddr → String) (mesh : Option P2PMesh) (_req : JoinMeshRequest)
    (order : List NodeId) (now : NodeId → EpochTime) : Option (Except String JoinMeshResponse) :=
  match mesh with
  | some mesh => do
      let existingNodes ← (HashMap.iter order mesh.topology.nodes).mapM fun entry =>
        entry.2.toMeshNodeInfo ipText (now entry.1)
      some (.ok ⟨true, "Successfully joined mesh", existingNodes⟩)
  | none => some (.error "P2P mesh not initialized")

/-- `Broker::leave_mesh`.  The request is only printed. -/
def leaveMesh (mesh : Option P2PMesh) (_req : LeaveMeshRequest) (now : SystemTime) :
    Except String LeaveMeshResponse × Option P2PMesh :=
  (.ok ⟨true, "Successfully left mesh"⟩, mesh.map fun mesh => mesh.leaveCluster now)

/-- The record that `gossip_message` makes up; `drawn` is its id. -/
def placeholder (drawn : NodeId) (now : EpochTime) : NodeInfo :=
  .new drawn (.v4 0x7f000001 50051) 0 3 now

/-- The message type that `gossip_message` makes of a request. -/
def messageType (req : GossipMessageRequest) (drawn : NodeId) (now : EpochTime) :
    Except String GossipMessageType :=
  if req.messageType = 1 then .ok (.nodeJoin (placeholder drawn now))
  else if req.messageType = 2 then .ok (.nodeLeave ⟨req.fromNodeId⟩)
  else if req.messageType = 3 then .ok (.nodeUpdate (placeholder drawn now))
  else if req.messageType = 4 then .ok (.heartbeat ⟨req.fromNodeId⟩)
  else if req.messageType = 5 then .ok (.partitionUpdate 0 ⟨req.fromNodeId⟩)
  else if req.messageType = 6 then .ok (.clusterState [])
  else .error "Unknown gossip message type"

/-- `Broker::gossip_message`, with the clock readings for the record and for the
message. -/
def gossipMessage (mesh : Option P2PMesh) (req : GossipMessageRequest) (drawn : NodeId)
    (now nowProcess : EpochTime) :
    Option (Except String GossipMessageResponse × Option P2PMesh) :=
  match mesh with
  | some mesh =>
      match messageType req drawn now with
      | .error status => some (.error status, some mesh)
      | .ok messageType => do
          let timestamp ← SystemTime.ofUnixSecs req.timestamp.toUInt64
          let gossipMsg : GossipMessage :=
            ⟨⟨req.fromNodeId⟩, messageType, timestamp, req.ttl.toUInt32⟩
          some (.ok ⟨true, "Gossip message processed"⟩,
            some (mesh.processGossipMessage gossipMsg nowProcess))
  | none => some (.ok ⟨true, "Gossip message processed"⟩, none)

end MeshRpc

/-! ### Runs of requests -/

/-- A request, with the clock readings, the iteration order and the drawn id that
its handler needs. -/
inductive MeshRequest
  | joinMesh (req : JoinMeshRequest) (order : List NodeId) (now : NodeId → EpochTime)
  | leaveMesh (req : LeaveMeshRequest) (now : SystemTime)
  | gossipMessage (req : GossipMessageRequest) (drawn : NodeId) (now nowProcess : EpochTime)

/-- The node that sent the request. -/
def MeshRequest.sender : MeshRequest → NodeId
  | .joinMesh req _ _ => ⟨req.nodeId⟩
  | .leaveMesh req _ => ⟨req.nodeId⟩
  | .gossipMessage req _ _ _ => ⟨req.fromNodeId⟩

/-- What a node asked for. -/
inductive Membership
  /-- To be a member, on the announced partition if it announced one. -/
  | join (partitionId : Option UInt32)
  /-- To be one no longer. -/
  | leave
deriving DecidableEq

/-- What a request asks for. -/
def MeshRequest.asks : MeshRequest → Membership
  | .joinMesh req _ _ => .join (some req.partitionId.toUInt32)
  | .leaveMesh _ _ => .leave
  | .gossipMessage req _ _ _ => if req.messageType = 1 then .join none else .leave

/-- A mesh, the nodes it knew in the beginning, and what each node asked for
last. -/
structure MeshRpcRun where
  mesh : P2PMesh
  known : HashMap NodeId NodeInfo
  asked : HashMap NodeId Membership

namespace MeshRpcRun

/-- Before the first request. -/
def start (mesh : P2PMesh) : MeshRpcRun := ⟨mesh, mesh.topology.nodes, ∅⟩

variable (ipText : IpAddr → String)

/-- The mesh after a request, if it is answered with success. -/
def answer (s : MeshRpcRun) : MeshRequest → Option P2PMesh
  | .joinMesh req order now =>
      match MeshRpc.joinMesh ipText (some s.mesh) req order now with
      | some (.ok _) => some s.mesh
      | _ => none
  | .leaveMesh req now =>
      match MeshRpc.leaveMesh (some s.mesh) req now with
      | (.ok _, mesh) => mesh
      | _ => none
  | .gossipMessage req drawn now nowProcess =>
      match MeshRpc.gossipMessage (some s.mesh) req drawn now nowProcess with
      | some (.ok _, mesh) => mesh
      | _ => none

/-- One request; one that fails changes nothing. -/
def step (s : MeshRpcRun) (request : MeshRequest) : MeshRpcRun :=
  match s.answer ipText request with
  | some mesh => { s with mesh := mesh, asked := s.asked.insert request.sender request.asks }
  | none => s

/-- The request is answered with success; a gossip message is a NODE_JOIN or a
NODE_LEAVE that has not expired. -/
def Answered (s : MeshRpcRun) (request : MeshRequest) : Prop :=
  (s.answer ipText request).isSome ∧
    match request with
    | .gossipMessage req _ _ _ => (req.messageType = 1 ∨ req.messageType = 2) ∧ 0 < req.ttl
    | _ => True

/-- The id is one of the two of the local node. -/
def Local (s : MeshRpcRun) (x : NodeId) : Prop :=
  x = s.mesh.nodeId ∨ x = s.mesh.nodeInfo.id

instance (s : MeshRpcRun) (x : NodeId) : Decidable (s.Local x) :=
  inferInstanceAs (Decidable (_ ∨ _))

/-- The topology knows `x` as `x` asked for last. -/
def AsAsked (s : MeshRpcRun) (x : NodeId) : Prop :=
  match s.asked.lookup x with
  | some (.join partitionId) =>
      ∃ node, s.mesh.topology.nodes.lookup x = some node ∧
        ∀ p, partitionId = some p → node.partitionId = p
  | some .leave => x ∉ s.mesh.topology.nodes
  | none => x ∈ s.mesh.topology.nodes ↔ x ∈ s.known

/-- Every other node is known exactly if it asked to join last, or was known and
has asked for nothing, and with the partition it announced. -/
def Members (s : MeshRpcRun) : Prop := ∀ x, ¬ s.Local x → s.AsAsked x

/-- The request changes the record of no node but its sender. -/
def Frames (s : MeshRpcRun) (request : MeshRequest) : Prop :=
  ∀ y, y ≠ request.sender → ¬ (s.Local request.sender ∧ s.Local y) →
    (s.step ipText request).mesh.topology.nodes.lookup y = s.mesh.topology.nodes.lookup y

/-- The request, where it comes from another node, does what it is for: a join is
for a node that is known with its partition, a leave for one that is not known,
while the local id is not known either, and a NODE_JOIN draws the id of its
sender, or a record that is there already. -/
def TakesEffect (s : MeshRpcRun) : MeshRequest → Prop
  | .joinMesh req _ _ => ¬ s.Local ⟨req.nodeId⟩ →
      ∃ node, s.mesh.topology.nodes.lookup ⟨req.nodeId⟩ = some node ∧
        node.partitionId = req.partitionId.toUInt32
  | .leaveMesh req _ => ¬ s.Local ⟨req.nodeId⟩ →
      ⟨req.nodeId⟩ ∉ s.mesh.topology.nodes ∧ s.mesh.nodeId ∉ s.mesh.topology.nodes
  | .gossipMessage req drawn now _ => req.messageType = 1 → ⟨req.fromNodeId⟩ ≠ s.mesh.nodeId →
      drawn = ⟨req.fromNodeId⟩ ∨ (s.Local ⟨req.fromNodeId⟩ ∧ s.Local drawn) ∨
        ((s.Local ⟨req.fromNodeId⟩ ∨ ⟨req.fromNodeId⟩ ∈ s.mesh.topology.nodes) ∧
          s.mesh.topology.nodes.lookup drawn = some (MeshRpc.placeholder drawn now))

/-! ### What the requests do -/

variable {ipText} {s : MeshRpcRun}

/-- The step of a request that is answered. -/
theorem step_eq {request : MeshRequest} {mesh : P2PMesh}
    (h : s.answer ipText request = some mesh) :
    s.step ipText request =
      { s with mesh := mesh, asked := s.asked.insert request.sender request.asks } := by
  simp only [step, h]

theorem answer_joinMesh {req : JoinMeshRequest} {order : List NodeId}
    {now : NodeId → EpochTime} {mesh : P2PMesh}
    (h : s.answer ipText (.joinMesh req order now) = some mesh) : mesh = s.mesh := by
  simp only [answer] at h
  split at h
  · exact (Option.some.inj h).symm
  · cases h

theorem answer_leaveMesh (req : LeaveMeshRequest) (now : SystemTime) :
    s.answer ipText (.leaveMesh req now) = some (s.mesh.leaveCluster now) := rfl

/-- A gossip message that is answered has been processed. -/
theorem answer_gossipMessage {req : GossipMessageRequest} {drawn : NodeId}
    {now nowProcess : EpochTime} {mesh : P2PMesh}
    (h : s.answer ipText (.gossipMessage req drawn now nowProcess) = some mesh) :
    ∃ messageType timestamp, MeshRpc.messageType req drawn now = .ok messageType ∧
      mesh = s.mesh.processGossipMessage
        ⟨⟨req.fromNodeId⟩, messageType, timestamp, req.ttl.toUInt32⟩ nowProcess := by
  simp only [answer, MeshRpc.gossipMessage] at h
  cases htype : MeshRpc.messageType req drawn now with
  | error status =>
      rw [htype] at h
      cases h
  | ok messageType =>
      cases htime : SystemTime.ofUnixSecs req.timestamp.toUInt64 with
      | none =>
          simp only [htype, htime] at h
          cases h
      | some timestamp =>
          simp only [htype, htime] at h
          exact ⟨messageType, timestamp, rfl, (Option.some.inj h).symm⟩

/-- A message that has not expired is accepted unless the mesh sent it itself. -/
theorem lookup_nodes_processGossipMessage {message : GossipMessage} (httl : message.ttl ≠ 0)
    (now : EpochTime) (y : NodeId) :
    (s.mesh.processGossipMessage message now).topology.nodes.lookup y =
      if message.fromNode = s.mesh.nodeId then s.mesh.topology.nodes.lookup y
      else (s.mesh.receive now message.messageType).topology.nodes.lookup y := by
  rcases P2PMesh.topology_processGossipMessage s.mesh message now with
    ⟨haccepts, htop⟩ | ⟨hignored, hsame⟩
  · rw [htop, if_neg haccepts.1]
  · have hown : message.fromNode = s.mesh.nodeId := by
      by_contra hother
      exact hignored ⟨hother, httl⟩
    rw [hsame, if_pos hown]

/-- The record of `y` after a request that is answered. -/
def recordAfter (s : MeshRpcRun) (y : NodeId) : MeshRequest → Option NodeInfo
  | .joinMesh _ _ _ => s.mesh.topology.nodes.lookup y
  | .leaveMesh _ _ => if y = s.mesh.nodeId then none else s.mesh.topology.nodes.lookup y
  | .gossipMessage req drawn now _ =>
      if ⟨req.fromNodeId⟩ = s.mesh.nodeId then s.mesh.topology.nodes.lookup y
      else if req.messageType = 1 then
        if y = drawn then some (MeshRpc.placeholder drawn now)
        else s.mesh.topology.nodes.lookup y
      else if y = ⟨req.fromNodeId⟩ then none else s.mesh.topology.nodes.lookup y

theorem toUInt32_ne_zero {ttl : Int32} (h : 0 < ttl) : ttl.toUInt32 ≠ 0 := by
  intro hzero
  have hback : ttl = (0 : UInt32).toInt32 := by rw [← hzero, Int32.toInt32_toUInt32]
  rw [hback] at h
  exact absurd h (by decide)

/-- **Step lemma.**  What a request does to the nodes, and to the record of what
was asked for. -/
theorem step_of_answered {request : MeshRequest} (h : s.Answered ipText request) :
    (∀ y, (s.step ipText request).mesh.topology.nodes.lookup y = s.recordAfter y request) ∧
      (∀ x, (s.step ipText request).Local x ↔ s.Local x) ∧
      (s.step ipText request).known = s.known ∧
      (s.step ipText request).asked = s.asked.insert request.sender request.asks := by
  obtain ⟨hsome, hscope⟩ := h
  obtain ⟨mesh, hmesh⟩ := Option.isSome_iff_exists.mp hsome
  rw [step_eq hmesh]
  cases request with
  | joinMesh req order now =>
      have hsame := answer_joinMesh hmesh
      subst hsame
      exact ⟨fun _ => rfl, fun _ => Iff.rfl, rfl, rfl⟩
  | leaveMesh req now =>
      rw [answer_leaveMesh] at hmesh
      cases hmesh
      exact ⟨fun y => MeshTopology.lookup_nodes_removeNode _ _ y, fun _ => Iff.rfl, rfl, rfl⟩
  | gossipMessage req drawn now nowProcess =>
      obtain ⟨messageType, timestamp, htype, rfl⟩ := answer_gossipMessage hmesh
      refine ⟨?_, ?_, rfl, rfl⟩
      · intro y
        obtain ⟨hkind, httl⟩ := hscope
        have httl' : req.ttl.toUInt32 ≠ 0 := toUInt32_ne_zero httl
        show (s.mesh.processGossipMessage _ nowProcess).topology.nodes.lookup y = _
        rw [lookup_nodes_processGossipMessage httl', recordAfter]
        dsimp only
        split
        · rfl
        · rcases hkind with hjoin | hleave
          · rw [MeshRpc.messageType, if_pos hjoin] at htype
            cases htype
            rw [if_pos hjoin]
            exact HashMap.lookup_insert_eq _ _ _ _
          · have hnot : ¬ req.messageType = 1 := by
              rw [hleave]
              decide
            rw [MeshRpc.messageType, if_neg hnot, if_pos hleave] at htype
            cases htype
            rw [if_neg hnot]
            exact MeshTopology.lookup_nodes_removeNode _ _ y
      · intro x
        obtain ⟨hid, hinfo, -⟩ := P2PMesh.config_processGossipMessage s.mesh
          ⟨⟨req.fromNodeId⟩, messageType, timestamp, req.ttl.toUInt32⟩ nowProcess
        show x = _ ∨ x = _ ↔ x = _ ∨ x = _
        rw [hid, hinfo]

/-! ### Which requests take effect -/

/-- What the sender finds after its request. -/
def GetsWhatItAsks (s : MeshRpcRun) (request : MeshRequest) : Prop :=
  match request.asks with
  | .join partitionId =>
      ∃ node, s.recordAfter request.sender request = some node ∧
        ∀ p, partitionId = some p → node.partitionId = p
  | .leave => s.recordAfter request.sender request = none

/-- A request that leaves the other nodes alone keeps the members right exactly if
its sender gets what it asks for. -/
theorem members_step_iff {request : MeshRequest} (hs : s.Members)
    (hanswered : s.Answered ipText request) (hframes : s.Frames ipText request) :
    (s.step ipText request).Members ↔
      (¬ s.Local request.sender → s.GetsWhatItAsks request) := by
  obtain ⟨hnodes, hlocal, hknown, hasked⟩ := step_of_answered hanswered
  have hsender : (s.step ipText request).AsAsked request.sender ↔ s.GetsWhatItAsks request := by
    rw [AsAsked, GetsWhatItAsks, hasked, Finmap.lookup_insert]
    cases request.asks with
    | join partitionId => simp only [hnodes]
    | leave => rw [← Finmap.lookup_eq_none, hnodes]
  have hother (x : NodeId) (hx : x ≠ request.sender) (hxlocal : ¬ s.Local x) :
      (s.step ipText request).AsAsked x ↔ s.AsAsked x := by
    have hsame := hframes x hx fun h => hxlocal h.2
    rw [AsAsked, AsAsked, hasked, Finmap.lookup_insert_of_ne _ hx, hknown]
    simp only [← Finmap.lookup_isSome, hsame]
  constructor
  · intro h hnonlocal
    exact hsender.mp (h request.sender fun hl => hnonlocal ((hlocal _).mp hl))
  · intro h x hx
    rw [hlocal] at hx
    by_cases hxs : x = request.sender
    · subst hxs
      exact hsender.mpr (h hx)
    · exact (hother x hxs hx).mpr (hs x hx)

/-- The request leaves the records of the other nodes as they are. -/
def LeavesOthers (s : MeshRpcRun) (request : MeshRequest) : Prop :=
  ∀ y, y ≠ request.sender → ¬ (s.Local request.sender ∧ s.Local y) →
    s.recordAfter y request = s.mesh.topology.nodes.lookup y

theorem effect_joinMesh_iff (req : JoinMeshRequest) (order : List NodeId)
    (now : NodeId → EpochTime) :
    (¬ s.Local ⟨req.nodeId⟩ → s.GetsWhatItAsks (.joinMesh req order now)) ∧
        s.LeavesOthers (.joinMesh req order now) ↔
      s.TakesEffect (.joinMesh req order now) := by
  have hothers : s.LeavesOthers (.joinMesh req order now) := fun _ _ _ => rfl
  simp [hothers, GetsWhatItAsks, MeshRequest.asks, MeshRequest.sender, recordAfter, TakesEffect]

/-- `leave_mesh` drops the record under the local id. -/
theorem effect_leaveMesh_iff (req : LeaveMeshRequest) (now : SystemTime) :
    (¬ s.Local ⟨req.nodeId⟩ → s.GetsWhatItAsks (.leaveMesh req now)) ∧
        s.LeavesOthers (.leaveMesh req now) ↔
      s.TakesEffect (.leaveMesh req now) := by
  constructor
  · rintro ⟨hgets, hothers⟩ hsender
    have hne : s.mesh.nodeId ≠ ⟨req.nodeId⟩ := fun h => hsender (.inl h.symm)
    have hown := hothers s.mesh.nodeId hne fun h => hsender h.1
    have hgone : s.recordAfter ⟨req.nodeId⟩ (.leaveMesh req now) = none := hgets hsender
    rw [recordAfter, if_pos rfl] at hown
    rw [recordAfter, if_neg (Ne.symm hne)] at hgone
    exact ⟨Finmap.lookup_eq_none.mp hgone, Finmap.lookup_eq_none.mp hown.symm⟩
  · intro h
    constructor
    · intro hsender
      show s.recordAfter ⟨req.nodeId⟩ (.leaveMesh req now) = none
      rw [recordAfter, Finmap.lookup_eq_none.mpr (h hsender).1, ite_self]
    · intro y hy hforeign
      rw [recordAfter]
      split
      · -- the local id: it is known to no other sender
        rename_i hown
        have hsender : ¬ s.Local ⟨req.nodeId⟩ := fun hl => hforeign ⟨hl, .inl hown⟩
        rw [hown, Finmap.lookup_eq_none.mpr (h hsender).2]
      · rfl

/-- A NODE_LEAVE drops the record of its sender. -/
theorem effect_nodeLeave {req : GossipMessageRequest} (hleave : req.messageType = 2)
    (drawn : NodeId) (now nowProcess : EpochTime) :
    (¬ s.Local ⟨req.fromNodeId⟩ →
        s.GetsWhatItAsks (.gossipMessage req drawn now nowProcess)) ∧
      s.LeavesOthers (.gossipMessage req drawn now nowProcess) := by
  have hnot : ¬ req.messageType = 1 := by
    rw [hleave]
    decide
  constructor
  · intro hsender
    have hne : (⟨req.fromNodeId⟩ : NodeId) ≠ s.mesh.nodeId := fun h => hsender (.inl h)
    simp [GetsWhatItAsks, MeshRequest.asks, MeshRequest.sender, recordAfter, hnot, hne]
  · intro y hy _
    replace hy : y ≠ ⟨req.fromNodeId⟩ := hy
    simp [recordAfter, hnot, hy]

/-- A NODE_JOIN from another mesh adds the drawn record. -/
theorem effect_nodeJoin_iff {req : GossipMessageRequest} (hjoin : req.messageType = 1)
    (hne : (⟨req.fromNodeId⟩ : NodeId) ≠ s.mesh.nodeId) (drawn : NodeId)
    (now nowProcess : EpochTime) :
    (¬ s.Local ⟨req.fromNodeId⟩ →
          s.GetsWhatItAsks (.gossipMessage req drawn now nowProcess)) ∧
        s.LeavesOthers (.gossipMessage req drawn now nowProcess) ↔
      s.TakesEffect (.gossipMessage req drawn now nowProcess) := by
  have hrecord (y : NodeId) : s.recordAfter y (.gossipMessage req drawn now nowProcess) =
      if y = drawn then some (MeshRpc.placeholder drawn now)
      else s.mesh.topology.nodes.lookup y := by
    rw [recordAfter, if_neg hne, if_pos hjoin]
  have hgets : s.GetsWhatItAsks (.gossipMessage req drawn now nowProcess) ↔
      drawn = ⟨req.fromNodeId⟩ ∨ (⟨req.fromNodeId⟩ : NodeId) ∈ s.mesh.topology.nodes := by
    simp only [GetsWhatItAsks, MeshRequest.asks, MeshRequest.sender, if_pos hjoin, hrecord]
    by_cases hdrawn : (⟨req.fromNodeId⟩ : NodeId) = drawn
    · simp [hdrawn]
    · simp [hdrawn, Ne.symm hdrawn, Finmap.mem_iff]
  constructor
  · rintro ⟨hsender, hothers⟩ _ _
    by_cases hdrawn : drawn = ⟨req.fromNodeId⟩
    · exact .inl hdrawn
    · by_cases hlocal : s.Local ⟨req.fromNodeId⟩ ∧ s.Local drawn
      · exact .inr (.inl hlocal)
      · have hsame := hothers drawn hdrawn hlocal
        rw [hrecord, if_pos rfl] at hsame
        refine .inr (.inr ⟨?_, hsame.symm⟩)
        by_cases hl : s.Local ⟨req.fromNodeId⟩
        · exact .inl hl
        · exact .inr ((hgets.mp (hsender hl)).resolve_left hdrawn)
  · intro h
    specialize h hjoin hne
    constructor
    · intro hsender
      rcases h with hdrawn | ⟨hl, -⟩ | ⟨hl | hknown, -⟩
      · exact hgets.mpr (.inl hdrawn)
      · exact absurd hl hsender
      · exact absurd hl hsender
      · exact hgets.mpr (.inr hknown)
    · intro y hy hforeign
      replace hy : y ≠ ⟨req.fromNodeId⟩ := hy
      rw [hrecord]
      split
      · rename_i hyd
        subst hyd
        rcases h with hdrawn | hlocal | ⟨-, hthere⟩
        · exact absurd hdrawn hy
        · exact absurd hlocal hforeign
        · exact hthere.symm
      · rfl

/-- **Step lemma.**  From a state with the right members, a request keeps them and
leaves the other nodes alone exactly if it takes effect. -/
theorem effect_iff {request : MeshRequest} (hs : s.Members)
    (hanswered : s.Answered ipText request) :
    (s.step ipText request).Members ∧ s.Frames ipText request ↔ s.TakesEffect request := by
  have hframes : s.Frames ipText request ↔ s.LeavesOthers request := by
    simp only [Frames, LeavesOthers, (step_of_answered hanswered).1]
  have hreduce : (s.step ipText request).Members ∧ s.Frames ipText request ↔
      (¬ s.Local request.sender → s.GetsWhatItAsks request) ∧ s.LeavesOthers request := by
    rw [← hframes]
    exact and_congr_left fun hf => members_step_iff hs hanswered hf
  rw [hreduce]
  cases request with
  | joinMesh req order now => exact effect_joinMesh_iff req order now
  | leaveMesh req now => exact effect_leaveMesh_iff req now
  | gossipMessage req drawn now nowProcess =>
      by_cases hown : (⟨req.fromNodeId⟩ : NodeId) = s.mesh.nodeId
      · -- the mesh ignores what carries its own id
        refine iff_of_true ⟨fun h => absurd (.inl hown) h, ?_⟩ fun _ h => absurd hown h
        intro y _ _
        rw [recordAfter, if_pos hown]
      · rcases hanswered.2.1 with hjoin | hleave
        · exact effect_nodeJoin_iff hjoin hown drawn now nowProcess
        · apply iff_of_true (effect_nodeLeave hleave drawn now nowProcess)
          intro hjoin
          rw [hleave] at hjoin
          exact absurd hjoin (by decide)

theorem members_start (mesh : P2PMesh) : (start mesh).Members := fun _ _ => Iff.rfl

/-- **Requests take effect for their senders and for no other, exactly when each
of them does.**  For every mesh and every sequence of requests that are answered
with success. -/
theorem membership_iff (ipText : IpAddr → String) (mesh : P2PMesh)
    {requests : List MeshRequest}
    (hanswered : Along (step ipText) (Answered ipText) (start mesh) requests) :
    Always (step ipText) Members (start mesh) requests ∧
        Along (step ipText) (Frames ipText) (start mesh) requests ↔
      Along (step ipText) TakesEffect (start mesh) requests :=
  always_and_along_iff hanswered (members_start mesh) (fun _ hs => hs)
    (fun _ _ hs ha hC => ((effect_iff hs ha).mpr hC).1) fun _ _ hs ha => effect_iff hs ha

/-- A broker for partition 0 of two that has just started. -/
def startedMesh : P2PMesh :=
  (P2PMesh.new ⟨"a"⟩ ⟨"d"⟩ (.v4 0x7f000001 50051) 0 2 (Duration.fromSecs 30) .unixEpoch).start

/-- The node `x` of partition 1 has become known to it. -/
def meshWithX : P2PMesh :=
  { startedMesh with
    topology := startedMesh.topology.addNode
      (.new ⟨"x"⟩ (.v4 0x7f000001 50052) 1 2 .unixEpoch) }

/-- The node `x` announces itself. -/
def joinOfX (order : List NodeId) : MeshRequest :=
  .joinMesh ⟨"x", "127.0.0.1", 50052, 1, 2, []⟩ order fun _ => .unixEpoch

/-- The node `x` joins where it is known already and leaves by gossip, and `y`
leaves, which was never there. -/
def quietRequests : List MeshRequest :=
  [joinOfX [⟨"d"⟩, ⟨"x"⟩],
   .gossipMessage ⟨"x", 2, 0, 5⟩ ⟨"u"⟩ .unixEpoch .unixEpoch,
   .leaveMesh ⟨"y"⟩ .unixEpoch]

/-- `membership_iff` at `quietRequests`. -/
theorem quietRequests_take_effect :
    let ipText (_ : IpAddr) := "127.0.0.1"
    Along (step ipText) (Answered ipText) (start meshWithX) quietRequests ∧
      Always (step ipText) Members (start meshWithX) quietRequests ∧
      Along (step ipText) (Frames ipText) (start meshWithX) quietRequests := by
  intro ipText
  have hanswered : Along (step ipText) (Answered ipText) (start meshWithX) quietRequests :=
    ⟨⟨by decide, trivial⟩, ⟨by decide, by decide, by decide⟩, ⟨by decide, trivial⟩, trivial⟩
  refine ⟨hanswered, (membership_iff ipText meshWithX hanswered).mpr ⟨?_, ?_, ?_, trivial⟩⟩
  · intro _
    exact ⟨.new ⟨"x"⟩ (.v4 0x7f000001 50052) 1 2 .unixEpoch, by decide, by decide⟩
  · intro hjoin
    exact absurd hjoin (by decide)
  · intro _
    constructor <;> decide

/-- `join_mesh` tells `x` that it has joined, and does not add it. -/
theorem join_mesh_adds_nobody :
    let ipText (_ : IpAddr) := "127.0.0.1"
    (∃ response, MeshRpc.joinMesh ipText (some startedMesh) ⟨"x", "127.0.0.1", 50052, 1, 2, []⟩
        [⟨"d"⟩] (fun _ => .unixEpoch) = some (.ok response) ∧
        response.success = true ∧ response.message = "Successfully joined mesh") ∧
      Along (step ipText) (Answered ipText) (start startedMesh) [joinOfX [⟨"d"⟩]] ∧
      ⟨"x"⟩ ∉ (([joinOfX [⟨"d"⟩]].foldl (step ipText) (start startedMesh)).mesh.topology.nodes) ∧
      ¬ (Always (step ipText) Members (start startedMesh) [joinOfX [⟨"d"⟩]] ∧
        Along (step ipText) (Frames ipText) (start startedMesh) [joinOfX [⟨"d"⟩]]) := by
  intro ipText
  have habsent : ⟨"x"⟩ ∉
      ([joinOfX [⟨"d"⟩]].foldl (step ipText) (start startedMesh)).mesh.topology.nodes := by
    decide
  refine ⟨⟨_, rfl, rfl, rfl⟩, ⟨⟨by decide, trivial⟩, trivial⟩, habsent, ?_⟩
  rintro ⟨hmembers, -⟩
  -- `x` is not local, and its last request was a join
  have hx := hmembers.last ⟨"x"⟩ (by decide)
  have hasked : ([joinOfX [⟨"d"⟩]].foldl (step ipText) (start startedMesh)).asked.lookup ⟨"x"⟩ =
      some (.join (some 1)) := by
    decide
  rw [AsAsked, hasked] at hx
  obtain ⟨node, hnode, -⟩ := hx
  exact habsent (Finmap.mem_of_lookup_eq_some hnode)

end MeshRpcRun

end Rafka
