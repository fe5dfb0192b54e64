/-
Rafka/ForwardLocks.lean

The locks on the way of a forwarded message
(`Broker::forward_message_to_partition` and
`Broker::request_mesh_topology_from_node` in `crates/broker/src/broker.rs`).

A call looks for the target through the lock of the mesh and the lock of its topology.
If three looks find nothing it asks the known nodes for their topologies: under a read
guard on the mesh, which is dropped by hand before the mesh is written, and which is kept
over another look if no node answers.  If that does not help either, the known nodes are
asked once more, under a read guard that nothing drops, by a function that writes the
mesh when it has an answer.

Between two looks other tasks may change the mesh, and every remote call may fail; both
are chosen by the `Surroundings` of the call.

Main results: the node that is chosen is the one of the routing model
(`forwardMessageToPartition_result`), and a call never waits for itself exactly if it
handles the message itself, some look or the configuration knows a node of the
partition, or no known node answers in the end (`never_waits_for_itself_iff`).
-/
import Rafka.Guard
import Rafka.Routing

namespace Rafka

/-- The locks that a call uses. -/
inductive MeshLock
  /-- `Broker::p2p_mesh`. -/
  | p2pMesh
  /-- `P2PMesh::topology`. -/
  | topology
  /-- `ClusterManager::brokers`. -/
  | brokers
deriving DecidableEq

namespace ForwardLocks

open GuardEvent

/-- A call, as it uses the locks. -/
abbrev Call := Traced (GuardEvent MeshLock)

/-! ### What a call finds -/

/-- A copy of the topology, in the order in which a loop goes through its nodes. -/
structure Listing where
  topology : MeshTopology
  order : List NodeId
  enumerates : HashMap.Enumerates order topology.nodes

/-- The nodes of the loop. -/
def Listing.nodes (l : Listing) : List (NodeId × NodeInfo) := HashMap.iter l.order l.topology.nodes

/-- How a remote call for a topology ends. -/
inductive RemoteReply
  /-- The node cannot be reached. -/
  | unreachable
  /-- The node answers with a status. -/
  | refused
  | answered
deriving DecidableEq

/-- What a call finds and what becomes of its remote calls. -/
structure Surroundings where
  /-- What the looks find. -/
  tables : Tables
  /-- The mesh, if there is one, at the manual synchronisation. -/
  syncMesh : Option Listing
  syncReply : NodeId → RemoteReply
  /-- The mesh is still there when the write guard has come. -/
  syncStays : Bool
  /-- The mesh, if there is one, when the nodes are asked in the end. -/
  lastMesh : Option Listing
  lastReply : NodeId → RemoteReply
  lastStays : NodeId → Bool

/-- What a call does with the message. -/
inductive Forwarded
  /-- `handle_local_message`. -/
  | locally
  | to (node : NodeInfo)
  /-- `Status::failed_precondition`. -/
  | nowhere
deriving DecidableEq

/-! ### The functions -/

/-- `P2PMesh::get_cluster_topology`. -/
def getClusterTopology : Call Unit := do
  get .topology .read
  release .topology .read

/-- `Broker::get_node_for_partition`. -/
def getNodeForPartition (mesh : Option MeshTopology) (partitionId : UInt32) :
    Call (Option NodeInfo) := do
  get .p2pMesh .read
  if mesh.isSome then
    get .topology .read
    release .topology .read
  release .p2pMesh .read
  pure (Tables.getNodeForPartition mesh partitionId)

/-- The first loop of `forward_message_to_partition`. -/
def lookRepeatedly (tables : Tables) (targetPartition : UInt32) :
    List (Fin 3) → Call (Option NodeInfo)
  | [] => pure none
  | attempt :: attempts => do
      match ← getNodeForPartition (tables.attempts attempt) targetPartition with
      | some node => pure (some node)
      | none => lookRepeatedly tables targetPartition attempts

/-- The mesh and its topology are written. -/
def writeTopology (stays : Bool) : Call Unit := do
  get .p2pMesh .write
  if stays then
    get .topology .write
    release .topology .write
  release .p2pMesh .write

/-- The loop of the manual synchronisation: the read guard `mesh_lock` is dropped for the
first node that answers.  Returns whether it has been dropped. -/
def syncLoop (brokerId : String) (env : Surroundings) : List (NodeId × NodeInfo) → Call Bool
  | [] => pure false
  | entry :: nodes =>
      if entry.2.id.name ≠ brokerId ∧ env.syncReply entry.1 = .answered then do
        release .p2pMesh .read
        writeTopology env.syncStays
        pure true
      else syncLoop brokerId env nodes

/-- The manual synchronisation, up to the end of its loop. -/
def manualSync (brokerId : String) (env : Surroundings) : Call Bool := do
  get .p2pMesh .read
  match env.syncMesh with
  | none => pure false
  | some listing => do
      getClusterTopology
      syncLoop brokerId env listing.nodes

/-- `ClusterManager::get_broker_for_partition`. -/
def getBrokerForPartition (tables : Tables) (partitionId : UInt32) : Call (Option BrokerInfo) := do
  get .brokers .read
  release .brokers .read
  pure (tables.getBrokerForPartition partitionId)

/-- The look after the manual synchronisation: in the mesh, then in the configuration. -/
def lookOnceMore (parse : String → Option IpAddr) (tables : Tables) (targetPartition : UInt32) :
    Call (Option NodeInfo) := do
  match ← getNodeForPartition tables.synced targetPartition with
  | some node => pure (some node)
  | none =>
      let broker ← getBrokerForPartition tables targetPartition
      pure (broker.map fun broker => NodeInfo.ofBroker parse broker tables.now)

/-- The block after three looks in vain.  Its end drops `mesh_lock` if the loop has not. -/
def lookAfterSync (parse : String → Option IpAddr) (brokerId : String) (targetPartition : UInt32)
    (env : Surroundings) : Call (Option NodeInfo) := do
  let dropped ← manualSync brokerId env
  let targetNode ← lookOnceMore parse env.tables targetPartition
  if !dropped then
    release .p2pMesh .read
  pure targetNode

/-- `Broker::request_mesh_topology_from_node`. -/
def requestMeshTopologyFromNode (reply : RemoteReply) (stays : Bool) : Call (Except Unit Unit) :=
  match reply with
  | .unreachable => pure (.error ())
  | .refused => pure (.ok ())
  | .answered => do
      writeTopology stays
      pure (.ok ())

/-- The loop that asks the known nodes in the end. -/
def askNodes (env : Surroundings) : List (NodeId × NodeInfo) → Call Unit
  | [] => pure ()
  | entry :: nodes => do
      let _ ← requestMeshTopologyFromNode (env.lastReply entry.1) (env.lastStays entry.1)
      askNodes env nodes

/-- The branch without a target: the read guard is kept to its end. -/
def askForTopology (env : Surroundings) : Call Unit := do
  get .p2pMesh .read
  match env.lastMesh with
  | none => pure ()
  | some listing => do
      getClusterTopology
      askNodes env listing.nodes
  release .p2pMesh .read

/-- The node that `forward_message_to_partition` decides for. -/
def findTarget (parse : String → Option IpAddr) (brokerId : String) (targetPartition : UInt32)
    (env : Surroundings) : Call (Option NodeInfo) := do
  match ← lookRepeatedly env.tables targetPartition (List.finRange 3) with
  | some node => pure (some node)
  | none => lookAfterSync parse brokerId targetPartition env

/-- `Broker::forward_message_to_partition`, up to the remote call to the target. -/
def forwardMessageToPartition (parse : String → Option IpAddr) (n : Node) (brokerId : String)
    (req : PublishRequest) (targetPartition : UInt32) (env : Surroundings) : Call Forwarded :=
  if n.handlesLocally req targetPartition then pure .locally
  else do
    match ← findTarget parse brokerId targetPartition env with
    | some node => pure (.to node)
    | none =>
        askForTopology env
        pure .nowhere

/-! ### Looks -/

open Traced

variable {held : List (MeshLock × Mode)} {env : Surroundings} {brokerId : String}

theorem getClusterTopology_holds : getClusterTopology.Holds held held :=
  (Holds.get_read _).bind (Holds.release _ _)

/-- Read guards alone never stand in the way. -/
theorem getNodeForPartition_holds (mesh : Option MeshTopology) (partitionId : UInt32) :
    (getNodeForPartition mesh partitionId).Holds held held := by
  cases mesh with
  | none => exact (Holds.get_read _).bind ((Holds.release _ _).bind (Holds.pure _))
  | some topology =>
      exact (Holds.get_read _).bind ((Holds.get_read _).bind ((Holds.release _ _).bind
        ((Holds.release _ _).bind (Holds.pure _))))

theorem getNodeForPartition_result (mesh : Option MeshTopology) (partitionId : UInt32) :
    (getNodeForPartition mesh partitionId).result = Tables.getNodeForPartition mesh partitionId := by
  cases mesh with
  | none => rfl
  | some topology => rfl

theorem lookRepeatedly_result (tables : Tables) (targetPartition : UInt32)
    (attempts : List (Fin 3)) :
    (lookRepeatedly tables targetPartition attempts).result =
      attempts.findSome? fun attempt =>
        Tables.getNodeForPartition (tables.attempts attempt) targetPartition := by
  induction attempts with
  | nil => rfl
  | cons attempt attempts ih =>
      rw [lookRepeatedly, result_bind, getNodeForPartition_result, List.findSome?_cons]
      cases Tables.getNodeForPartition (tables.attempts attempt) targetPartition with
      | none => exact ih
      | some node => rfl

theorem lookRepeatedly_holds (tables : Tables) (targetPartition : UInt32)
    (attempts : List (Fin 3)) :
    (lookRepeatedly tables targetPartition attempts).Holds held held := by
  induction attempts with
  | nil => exact Holds.pure _
  | cons attempt attempts ih =>
      rw [lookRepeatedly]
      apply (getNodeForPartition_holds _ _).bind
      cases (getNodeForPartition (tables.attempts attempt) targetPartition).result with
      | none => exact ih
      | some node => exact Holds.pure _

/-! ### The manual synchronisation -/

/-- The mesh can be written by a task that has no guard on it and on its topology. -/
theorem writeTopology_holds (stays : Bool) (hmesh : ∀ g ∈ held, g.1 ≠ .p2pMesh)
    (htopology : ∀ g ∈ held, g.1 ≠ .topology) : (writeTopology stays).Holds held held := by
  cases stays with
  | false => exact (Holds.get_write hmesh).bind (Holds.release _ _)
  | true =>
      have htopology' : ∀ g ∈ (MeshLock.p2pMesh, Mode.write) :: held, g.1 ≠ .topology := by
        simpa using htopology
      exact (Holds.get_write hmesh).bind ((Holds.get_write htopology').bind
        ((Holds.release _ _).bind (Holds.release _ _)))

/-- The guard is gone exactly if the loop says so. -/
theorem syncLoop_holds (nodes : List (NodeId × NodeInfo)) :
    (syncLoop brokerId env nodes).Holds [(.p2pMesh, .read)]
      (if (syncLoop brokerId env nodes).result then [] else [(.p2pMesh, .read)]) := by
  induction nodes with
  | nil => exact Holds.pure _
  | cons entry nodes ih =>
      rw [syncLoop]
      split
      · exact (Holds.release _ _).bind ((writeTopology_holds _ (by simp) (by simp)).bind
          (Holds.pure _))
      · exact ih

theorem manualSync_holds :
    (manualSync brokerId env).Holds []
      (if (manualSync brokerId env).result then [] else [(.p2pMesh, .read)]) := by
  unfold manualSync
  cases env.syncMesh with
  | none => exact (Holds.get_read _).bind (Holds.pure _)
  | some listing =>
      exact (Holds.get_read _).bind (getClusterTopology_holds.bind (syncLoop_holds listing.nodes))

theorem getBrokerForPartition_holds (tables : Tables) (partitionId : UInt32) :
    (getBrokerForPartition tables partitionId).Holds held held :=
  (Holds.get_read _).bind ((Holds.release _ _).bind (Holds.pure _))

variable {parse : String → Option IpAddr} {targetPartition : UInt32}

theorem lookOnceMore_holds (tables : Tables) :
    (lookOnceMore parse tables targetPartition).Holds held held := by
  unfold lookOnceMore
  apply (getNodeForPartition_holds _ _).bind
  cases (getNodeForPartition tables.synced targetPartition).result with
  | some node => exact Holds.pure _
  | none => exact (getBrokerForPartition_holds _ _).bind (Holds.pure _)

/-- **The manual synchronisation never waits for itself**, and leaves no guard. -/
theorem lookAfterSync_holds :
    (lookAfterSync parse brokerId targetPartition env).Holds [] [] := by
  unfold lookAfterSync
  refine manualSync_holds.bind ((lookOnceMore_holds _).bind ?_)
  cases (manualSync brokerId env).result with
  | true => exact Holds.pure _
  | false => exact (Holds.release _ _).bind (Holds.pure _)

theorem findTarget_holds : (findTarget parse brokerId targetPartition env).Holds [] [] := by
  unfold findTarget
  apply (lookRepeatedly_holds _ _ _).bind
  cases (lookRepeatedly env.tables targetPartition (List.finRange 3)).result with
  | some node => exact Holds.pure _
  | none => exact lookAfterSync_holds

/-! ### The target -/

theorem lookOnceMore_result (tables : Tables) :
    (lookOnceMore parse tables targetPartition).result =
      match Tables.getNodeForPartition tables.synced targetPartition with
      | some node => some node
      | none =>
          (tables.getBrokerForPartition targetPartition).map fun broker =>
            NodeInfo.ofBroker parse broker tables.now := by
  rw [lookOnceMore, result_bind, getNodeForPartition_result]
  cases Tables.getNodeForPartition tables.synced targetPartition with
  | some node => rfl
  | none => rfl

theorem lookAfterSync_result :
    (lookAfterSync parse brokerId targetPartition env).result =
      (lookOnceMore parse env.tables targetPartition).result := by
  rw [lookAfterSync, result_bind, result_bind]
  cases (manualSync brokerId env).result with
  | true => rfl
  | false => rfl

theorem findTarget_result :
    (findTarget parse brokerId targetPartition env).result =
      env.tables.targetNode parse targetPartition := by
  have hattempts : List.finRange 3 = [0, 1, 2] := rfl
  rw [findTarget, result_bind, lookRepeatedly_result, Tables.targetNode, hattempts]
  cases [0, 1, 2].findSome? fun attempt =>
      Tables.getNodeForPartition (env.tables.attempts attempt) targetPartition with
  | some node => rfl
  | none => exact lookAfterSync_result.trans (lookOnceMore_result env.tables)

variable {n : Node} {req : PublishRequest}

/-- **The locks do not change the routing.** -/
theorem forwardMessageToPartition_result :
    (forwardMessageToPartition parse n brokerId req targetPartition env).result =
      if n.handlesLocally req targetPartition then .locally
      else
        match env.tables.targetNode parse targetPartition with
        | some node => .to node
        | none => .nowhere := by
  unfold forwardMessageToPartition
  split
  · rfl
  · rw [result_bind, findTarget_result]
    cases env.tables.targetNode parse targetPartition with
    | some node => rfl
    | none => rfl

/-! ### The last question -/

/-- A node that does not answer changes nothing. -/
theorem requestMeshTopologyFromNode_holds {reply : RemoteReply} (h : reply ≠ .answered)
    (stays : Bool) : (requestMeshTopologyFromNode reply stays).Holds held held := by
  cases reply with
  | unreachable => exact Holds.pure _
  | refused => exact Holds.pure _
  | answered => exact absurd rfl h

theorem askNodes_holds {nodes : List (NodeId × NodeInfo)}
    (h : ∀ entry ∈ nodes, env.lastReply entry.1 ≠ .answered) :
    (askNodes env nodes).Holds held held := by
  induction nodes with
  | nil => exact Holds.pure _
  | cons entry nodes ih =>
      exact (requestMeshTopologyFromNode_holds (h entry List.mem_cons_self) _).bind
        (ih fun entry' h' => h entry' (List.mem_cons_of_mem entry h'))

/-- Under the read guard, an answer is one too many. -/
theorem askNodes_waits {nodes : List (NodeId × NodeInfo)}
    (h : ∃ entry ∈ nodes, env.lastReply entry.1 = .answered) :
    ¬ (askNodes env nodes).Waitless [(.p2pMesh, .read)] := by
  induction nodes with
  | nil =>
      obtain ⟨entry, hentry, -⟩ := h
      exact absurd hentry List.not_mem_nil
  | cons entry nodes ih =>
      rw [askNodes]
      by_cases hreply : env.lastReply entry.1 = .answered
      · rw [hreply]
        rintro ⟨hfree, -⟩
        exact hfree (.p2pMesh, .read) List.mem_cons_self rfl
      · rw [(requestMeshTopologyFromNode_holds hreply _).waitless_bind_iff]
        apply ih
        obtain ⟨entry', hentry', hanswered⟩ := h
        rcases List.mem_cons.mp hentry' with rfl | hrest
        · exact absurd hanswered hreply
        · exact ⟨entry', hrest, hanswered⟩

/-- The loop asks every node that is known. -/
theorem Listing.forall_nodes {listing : Listing} {P : NodeId → Prop} :
    (∀ entry ∈ listing.nodes, P entry.1) ↔ ∀ id ∈ listing.topology.nodes, P id := by
  constructor
  · intro h id hid
    obtain ⟨node, hnode⟩ := Finmap.mem_iff.mp hid
    exact h (id, node) (listing.enumerates.mem_iter.mpr hnode)
  · rintro h ⟨id, node⟩ hentry
    exact h id (Finmap.mem_of_lookup_eq_some (listing.enumerates.mem_iter.mp hentry))

theorem askForTopology_iff :
    (askForTopology env).Waitless [] ↔
      ∀ listing ∈ env.lastMesh, ∀ id ∈ listing.topology.nodes, env.lastReply id ≠ .answered := by
  unfold askForTopology
  cases env.lastMesh with
  | none =>
      refine iff_of_true ?_ fun listing h => by cases h
      exact ((Holds.get_read _).bind (Holds.release _ _)).waitless
  | some listing =>
      rw [(Holds.get_read _).waitless_bind_iff, getClusterTopology_holds.waitless_bind_iff]
      simp only [Option.mem_some_iff, forall_eq', ← Listing.forall_nodes]
      constructor
      · intro hwaitless
        by_contra hanswered
        push Not at hanswered
        exact askNodes_waits hanswered (along_append.mp hwaitless).1
      · intro hsilent
        exact ((askNodes_holds hsilent).bind (Holds.release _ _)).waitless

/-- Some look, or the configuration, knows a node of the partition. -/
def Knows (tables : Tables) (targetPartition : UInt32) : Prop :=
  (∃ attempt, Tables.getNodeForPartition (tables.attempts attempt) targetPartition ≠ none) ∨
    Tables.getNodeForPartition tables.synced targetPartition ≠ none ∨
    ∃ broker ∈ tables.brokers, broker.partitionId = targetPartition

theorem targetNode_eq_none_iff (tables : Tables) :
    tables.targetNode parse targetPartition = none ↔ ¬ Knows tables targetPartition := by
  have hall : ∀ attempt : Fin 3, attempt ∈ [0, 1, 2] := by decide
  have hbrokers : tables.getBrokerForPartition targetPartition = none ↔
      ¬ ∃ broker ∈ tables.brokers, broker.partitionId = targetPartition := by
    simp [Tables.getBrokerForPartition, List.find?_eq_none]
  unfold Tables.targetNode Knows
  cases hattempts : [0, 1, 2].findSome? fun attempt =>
      Tables.getNodeForPartition (tables.attempts attempt) targetPartition with
  | some node =>
      obtain ⟨attempt, -, hfound⟩ := List.exists_of_findSome?_eq_some hattempts
      refine iff_of_false (Option.some_ne_none node) fun hunknown => hunknown (.inl ⟨attempt, ?_⟩)
      rw [hfound]
      exact Option.some_ne_none node
  | none =>
      have hnone : ¬ ∃ attempt,
          Tables.getNodeForPartition (tables.attempts attempt) targetPartition ≠ none := by
        rintro ⟨attempt, hfound⟩
        exact hfound (List.findSome?_eq_none_iff.mp hattempts attempt (hall attempt))
      cases hsynced : Tables.getNodeForPartition tables.synced targetPartition with
      | some node => simp
      | none => simpa [hnone] using hbrokers

/-- **When a call never waits for itself.**  Whatever it finds and whatever becomes of its
remote calls, a call of `forward_message_to_partition` never awaits the write guard of a
lock on which it has a guard exactly if it handles the message itself, or knows a node of
the partition, or none of the nodes that it asks in the end answers. -/
theorem never_waits_for_itself_iff (parse : String → Option IpAddr) (n : Node) (brokerId : String)
    (req : PublishRequest) (targetPartition : UInt32) (env : Surroundings) :
    (forwardMessageToPartition parse n brokerId req targetPartition env).Waitless [] ↔
      n.handlesLocally req targetPartition = true ∨ Knows env.tables targetPartition ∨
        ∀ listing ∈ env.lastMesh, ∀ id ∈ listing.topology.nodes,
          env.lastReply id ≠ .answered := by
  unfold forwardMessageToPartition
  split
  · rename_i hlocal
    exact iff_of_true trivial (.inl hlocal)
  · rename_i hlocal
    rw [findTarget_holds.waitless_bind_iff, findTarget_result]
    cases htarget : env.tables.targetNode parse targetPartition with
    | some node =>
        have hknows : Knows env.tables targetPartition := by
          by_contra hunknown
          rw [(targetNode_eq_none_iff env.tables).mpr hunknown] at htarget
          cases htarget
        exact iff_of_true trivial (.inr (.inl hknows))
    | none =>
        have hunknown := (targetNode_eq_none_iff env.tables).mp htarget
        rw [waitless_bind_pure, askForTopology_iff]
        simp [hlocal, hunknown]

/-- A mesh of two brokers of three: nobody has partition 2. -/
def twoOfThree : MeshTopology :=
  (MeshTopology.new.addNode (.new ⟨"a"⟩ (.v4 0x7f000001 50051) 0 3 .unixEpoch)).addNode
    (.new ⟨"b"⟩ (.v4 0x7f000001 50052) 1 3 .unixEpoch)

/-- Broker `b` answers whenever it is asked. -/
def bAnswers : Surroundings where
  tables := { attempts := fun _ => some twoOfThree, synced := some twoOfThree, brokers := [],
              now := .unixEpoch }
  syncMesh := some ⟨twoOfThree, [⟨"a"⟩, ⟨"b"⟩], by decide +kernel⟩
  syncReply id := if id = ⟨"b"⟩ then .answered else .unreachable
  syncStays := true
  lastMesh := some ⟨twoOfThree, [⟨"a"⟩, ⟨"b"⟩], by decide +kernel⟩
  lastReply id := if id = ⟨"b"⟩ then .answered else .unreachable
  lastStays _ := true

/-- Broker `a` has the read guard on its mesh and waits for the write guard. -/
theorem asking_waits_for_itself :
    PublishState.hashKey "b" % 3 = 2 ∧
      ¬ (forwardMessageToPartition (fun _ => none) (.start 0 3 fun _ => []) "a"
        ⟨"producer", "topic", "b", "payload"⟩ 2 bAnswers).Waitless [] :=
  ⟨by decide +kernel, by decide +kernel⟩

end ForwardLocks

end Rafka
