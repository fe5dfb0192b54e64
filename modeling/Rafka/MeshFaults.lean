/-
Rafka/MeshFaults.lean

The arithmetic of mesh handling (`crates/broker/src/broker.rs`,
`crates/core/src/p2p_mesh.rs`).

A request brings its timestamp as an `i64` and its ttl as an `i32`; `gossip_message` casts
both to unsigned numbers.  The ttl is decremented only when it is not zero, which is safe
whatever was sent.  The timestamp is added to the epoch, which overflows for a negative
one.  The staleness test of the cleanup subtracts the time at which a node was last seen
from the present, which underflows when the clock has stepped back, or when a peer has
announced a time to come.

`faultless_iff` says exactly when both come through.
-/
import Rafka.MeshRpc

namespace Rafka

/-- `ttl -= 1`, which panics at zero. -/
def decrementTtl (ttl : UInt32) : Option UInt32 := if ttl = 0 then none else some (ttl - 1)

namespace P2PMesh

/-- `P2PMesh::process_gossip_message`, with its decrement checked. -/
def processChecked (m : P2PMesh) (message : GossipMessage) (now : EpochTime) : Option P2PMesh :=
  if message.fromNode = m.nodeId then some m
  else if message.ttl = 0 then some m
  else do
    let m := m.receive now message.messageType
    let ttl ← decrementTtl message.ttl
    let forwardMessage := { message with ttl := ttl, fromNode := m.nodeId }
    some (if forwardMessage.ttl > 0 then m.send forwardMessage else m)

/-- The tests of a cleanup pass, in the order of the map and each with its clock reading. -/
def staleTests (m : P2PMesh) (order : List NodeId) (now : NodeId → EpochTime) :
    Option (List Bool) :=
  ((HashMap.iter order m.topology.nodes).map Prod.snd).mapM fun node =>
    node.isStale m.nodeTimeout (now node.id)

/-- The decrement is never reached with a ttl of zero. -/
theorem processChecked_eq (m : P2PMesh) (message : GossipMessage) (now : EpochTime) :
    m.processChecked message now = some (m.processGossipMessage message now) := by
  unfold processChecked processGossipMessage
  split
  · rfl
  · split
    · rfl
    · rename_i httl
      rw [decrementTtl, if_neg httl]
      rfl

/-- Where a test panics, the pass removes nobody. -/
theorem cleanup_of_staleTests {m : P2PMesh} {order : List NodeId} {now : NodeId → EpochTime}
    (h : m.staleTests order now = none) : m.cleanup order now = m := by
  rw [staleTests] at h
  simp only [cleanup, h]

end P2PMesh

/-- A list of tests returns exactly if each of them does. -/
theorem isSome_mapM_iff {α β : Type} {f : α → Option β} {xs : List α} :
    (xs.mapM f).isSome ↔ ∀ x ∈ xs, (f x).isSome := by
  induction xs with
  | nil => simp
  | cons x xs ih =>
      rw [List.mapM_cons, List.forall_mem_cons, ← ih]
      cases f x with
      | none => simp
      | some y =>
          cases xs.mapM f with
          | none => simp
          | some ys => simp

theorem NodeInfo.isSome_isStale_iff (node : NodeInfo) (timeout : Duration) (now : EpochTime) :
    (node.isStale timeout now).isSome ↔ node.lastSeen ≤ unixSecs now := by
  unfold NodeInfo.isStale
  split
  · rename_i hfuture
    exact iff_of_false (by simp) (UInt64.not_le.mpr hfuture)
  · rename_i hpast
    exact iff_of_true (by simp) (UInt64.not_lt.mp hpast)

theorem P2PMesh.isSome_staleTests_iff {m : P2PMesh} {order : List NodeId}
    (horder : HashMap.Enumerates order m.topology.nodes) (now : NodeId → EpochTime) :
    (m.staleTests order now).isSome ↔
      ∀ id node, m.topology.nodes.lookup id = some node →
        node.lastSeen ≤ unixSecs (now node.id) := by
  rw [staleTests, isSome_mapM_iff]
  simp only [NodeInfo.isSome_isStale_iff]
  constructor
  · intro h id node hnode
    exact h node (List.mem_map.mpr ⟨(id, node), horder.mem_iter.mpr hnode, rfl⟩)
  · intro h node hmem
    obtain ⟨⟨id, node'⟩, hiter, rfl⟩ := List.mem_map.mp hmem
    exact h id node' (horder.mem_iter.mp hiter)

/-- The addition to the epoch overflows exactly for a negative number of seconds. -/
theorem SystemTime.isSome_ofUnixSecs_iff (timestamp : Int64) :
    (SystemTime.ofUnixSecs timestamp.toUInt64).isSome ↔ 0 ≤ timestamp := by
  have hcond : timestamp.toInt =
      if 2 * timestamp.toUInt64.toNat < 2 ^ 64 then (timestamp.toUInt64.toNat : Int)
      else timestamp.toUInt64.toNat - 2 ^ 64 :=
    BitVec.toInt_eq_toNat_cond timestamp.toBitVec
  have hlt : timestamp.toUInt64.toNat < 2 ^ 64 := timestamp.toUInt64.toNat_lt
  have hzero : (0 : Int64).toInt = 0 := rfl
  rw [Int64.le_iff_toInt_le, hzero, SystemTime.ofUnixSecs]
  split
  · apply iff_of_true rfl
    split at hcond <;> omega
  · apply iff_of_false (fun h => by cases h)
    split at hcond <;> omega

namespace MeshRpc

/-- `Broker::gossip_message`, with all its arithmetic checked. -/
def gossipMessageChecked (mesh : Option P2PMesh) (req : GossipMessageRequest) (drawn : NodeId)
    (now nowProcess : EpochTime) :
    Option (Except String GossipMessageResponse × Option P2PMesh) :=
  match mesh with
  | some mesh =>
      match messageType req drawn now with
      | .error status => some (.error status, some mesh)
      | .ok messageType => do
          let timestamp ← SystemTime.ofUnixSecs req.timestamp.toUInt64
          let gossipMsg : GossipMessage :=
            ⟨⟨req.fromNodeId⟩, messageType, timestamp, req.ttl.toUInt32⟩
          let mesh ← mesh.processChecked gossipMsg nowProcess
          some (.ok ⟨true, "Gossip message processed"⟩, some mesh)
  | none => some (.ok ⟨true, "Gossip message processed"⟩, none)

theorem gossipMessageChecked_eq (mesh : Option P2PMesh) (req : GossipMessageRequest)
    (drawn : NodeId) (now nowProcess : EpochTime) :
    gossipMessageChecked mesh req drawn now nowProcess =
      gossipMessage mesh req drawn now nowProcess := by
  unfold gossipMessageChecked gossipMessage
  cases mesh with
  | none => rfl
  | some mesh =>
      dsimp only
      cases messageType req drawn now with
      | error status => rfl
      | ok type =>
          cases SystemTime.ofUnixSecs req.timestamp.toUInt64 with
          | none => rfl
          | some timestamp => simp [P2PMesh.processChecked_eq]

/-- The numbers 1 to 6 are message types. -/
theorem messageType_eq_error_iff (req : GossipMessageRequest) (drawn : NodeId) (now : EpochTime) :
    (∃ status, messageType req drawn now = .error status) ↔
      req.messageType < 1 ∨ 6 < req.messageType := by
  have hknown : (req.messageType = 1 ∨ req.messageType = 2 ∨ req.messageType = 3 ∨
      req.messageType = 4 ∨ req.messageType = 5 ∨ req.messageType = 6) ↔
      ¬ (req.messageType < 1 ∨ 6 < req.messageType) := by
    simp only [Int32.lt_iff_toInt_lt, ← Int32.toInt_inj]
    have hone : (1 : Int32).toInt = 1 := rfl
    have htwo : (2 : Int32).toInt = 2 := rfl
    have hthree : (3 : Int32).toInt = 3 := rfl
    have hfour : (4 : Int32).toInt = 4 := rfl
    have hfive : (5 : Int32).toInt = 5 := rfl
    have hsix : (6 : Int32).toInt = 6 := rfl
    omega
  rw [← not_iff_not, ← hknown]
  unfold messageType
  split_ifs <;> simp_all

/-- **When a request is handled without a fault.** -/
theorem isSome_gossipMessageChecked_iff (mesh : Option P2PMesh) (req : GossipMessageRequest)
    (drawn : NodeId) (now nowProcess : EpochTime) :
    (gossipMessageChecked mesh req drawn now nowProcess).isSome ↔
      mesh = none ∨ (req.messageType < 1 ∨ 6 < req.messageType) ∨ 0 ≤ req.timestamp := by
  rw [← messageType_eq_error_iff req drawn now, ← SystemTime.isSome_ofUnixSecs_iff,
    gossipMessageChecked_eq]
  unfold gossipMessage
  cases mesh with
  | none => simp
  | some mesh =>
      dsimp only
      cases messageType req drawn now with
      | error status => simp
      | ok type =>
          cases SystemTime.ofUnixSecs req.timestamp.toUInt64 with
          | none => simp
          | some timestamp => simp

/-- **When mesh handling does not fault.**  For every request, every mesh that it finds, every
topology that is cleaned up and all clock readings: the request is answered with all its
arithmetic in range, and no test of the cleanup underflows, exactly if there is no mesh
yet, the type is unknown or the timestamp is not negative, and every node of the topology
was last seen no later than the clock says when it is tested. -/
theorem faultless_iff (mesh : Option P2PMesh) (req : GossipMessageRequest) (drawn : NodeId)
    (now nowProcess : EpochTime) (m : P2PMesh) (order : List NodeId)
    (nowTest : NodeId → EpochTime) (horder : HashMap.Enumerates order m.topology.nodes) :
    (gossipMessageChecked mesh req drawn now nowProcess).isSome ∧
        (m.staleTests order nowTest).isSome ↔
      (mesh = none ∨ (req.messageType < 1 ∨ 6 < req.messageType) ∨ 0 ≤ req.timestamp) ∧
        ∀ id node, m.topology.nodes.lookup id = some node →
          node.lastSeen ≤ unixSecs (nowTest node.id) := by
  rw [isSome_gossipMessageChecked_iff, P2PMesh.isSome_staleTests_iff horder]

/-- A started mesh of one node, seen at the time `now`. -/
def meshAt (now : EpochTime) : P2PMesh :=
  (P2PMesh.new ⟨"a"⟩ ⟨"a"⟩ (.v4 0x7f000001 50051) 0 3 (.fromSecs 30) now).start

/-- One second after the epoch. -/
def oneSec : EpochTime := ⟨10 ^ 9, by decide⟩

/-- A heartbeat with this timestamp. -/
def heartbeatRequest (timestamp : Int64) : GossipMessageRequest :=
  { fromNodeId := "b", messageType := 4, timestamp := timestamp, ttl := 3 }

theorem faultless_iff_oneSec :
    HashMap.Enumerates [⟨"a"⟩] (meshAt .unixEpoch).topology.nodes ∧
    ((gossipMessageChecked (some (meshAt .unixEpoch)) (heartbeatRequest 0) ⟨"d"⟩ oneSec
        oneSec).isSome ∧ ((meshAt .unixEpoch).staleTests [⟨"a"⟩] fun _ => oneSec).isSome ↔
      (some (meshAt .unixEpoch) = none ∨ ((heartbeatRequest 0).messageType < 1 ∨
          6 < (heartbeatRequest 0).messageType) ∨ 0 ≤ (heartbeatRequest 0).timestamp) ∧
        ∀ id node, (meshAt .unixEpoch).topology.nodes.lookup id = some node →
          node.lastSeen ≤ unixSecs oneSec) := by
  have horder : HashMap.Enumerates [⟨"a"⟩] (meshAt .unixEpoch).topology.nodes := by
    decide +kernel
  exact ⟨horder, faultless_iff _ _ _ _ _ _ _ _ horder⟩

/-- A negative timestamp makes the handler panic, and a clock that has stepped back by a
second the cleanup. -/
theorem negative_timestamp_faults :
    gossipMessageChecked (some (meshAt oneSec)) (heartbeatRequest (-1)) ⟨"d"⟩ oneSec oneSec = none ∧
      HashMap.Enumerates [⟨"a"⟩] (meshAt oneSec).topology.nodes ∧
      (meshAt oneSec).staleTests [⟨"a"⟩] (fun _ => .unixEpoch) = none := by
  refine ⟨?_, by decide +kernel, by decide +kernel⟩
  have hoverflow : SystemTime.ofUnixSecs (heartbeatRequest (-1)).timestamp.toUInt64 = none := by
    decide +kernel
  have htype : messageType (heartbeatRequest (-1)) ⟨"d"⟩ oneSec = .ok (.heartbeat ⟨"b"⟩) := rfl
  simp only [gossipMessageChecked, htype, hoverflow]
  rfl

end MeshRpc

end Rafka
