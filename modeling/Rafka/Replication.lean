/-
Rafka/Replication.lean

Replica sets and leader election (`crates/broker/src/replication.rs`).

Every partition has an `ISRSet`: a map from broker ids to replicas, each in
one of three states, and the id of the leader.  The leader is recorded
twice, as `leaderId` and as the one replica in state `leader`, and the
operations write the two records independently.  `ISRSet.OneLeader` says the
records agree.

Main result (`leaderNamed_always_iff`): along a run of the manager, the
records agree in every non-empty replica set exactly when every step
`KeepsLeader` — no follower operation that goes through names the leader, the
leader is removed only as the last replica, and no follower enters an emptied
set.

A broker id is a string.  Offsets are `i64`; where `leader_offset - offset`
overflows, a build with overflow checks panics, after `update_follower_offset`
has written the offset and the time, and one without them wraps around.  So
every call takes `overflowChecks`.  The lock on the sets is not poisoned by a
panic, and the manager stays in use.  Iterating the replica map takes the order
as an argument.
-/
import Rafka.HashMap
import Rafka.Time
import Rafka.Trace

namespace Rafka

/-- A subtraction of `i64`; `none` is a panic. -/
def i64Sub (overflowChecks : Bool) (a b : Int64) : Option Int64 :=
  if overflowChecks && (a - b).toInt ≠ a.toInt - b.toInt then none else some (a - b)

/-- `ReplicaState`. -/
inductive ReplicaState
  | leader
  | follower
  | outOfSync
deriving DecidableEq

/-- `ReplicaInfo`. -/
structure ReplicaInfo where
  brokerId : String
  state : ReplicaState
  lastFetchOffset : Int64
  lastUpdated : SystemTime
  /-- How far behind the leader. -/
  lag : Int64
deriving DecidableEq

/-- `ISRSet`: the replicas of one partition. -/
structure ISRSet where
  partitionId : Int32
  leaderId : String
  replicas : HashMap String ReplicaInfo
  minIsr : Nat
  maxLagMs : Nat

namespace ISRSet

/-- `ISRSet::new`: the leader is the only replica. -/
def new (partitionId : Int32) (leaderId : String) (minIsr : Nat) (now : SystemTime) :
    ISRSet where
  partitionId := partitionId
  leaderId := leaderId
  replicas := (∅ : HashMap String ReplicaInfo).insert leaderId
    { brokerId := leaderId, state := .leader, lastFetchOffset := 0,
      lastUpdated := now, lag := 0 }
  minIsr := minIsr
  maxLagMs := 10000

/-- `ISRSet::add_follower`: an entry that is already there is replaced. -/
def addFollower (isr : ISRSet) (brokerId : String) (now : SystemTime) : ISRSet :=
  { isr with
    replicas := isr.replicas.insert brokerId
      { brokerId := brokerId, state := .follower, lastFetchOffset := 0,
        lastUpdated := now, lag := 0 } }

/-- The replica after a fetch up to `offset`, as `update_follower_offset`
writes it: the state follows from the lag alone.  If the lag overflows, neither
is written any more. -/
def fetched (overflowChecks : Bool) (offset leaderOffset : Int64) (now : SystemTime)
    (r : ReplicaInfo) : ReplicaInfo :=
  let r := { r with lastFetchOffset := offset, lastUpdated := now }
  match i64Sub overflowChecks leaderOffset offset with
  | some lag => { r with lag := lag, state := if lag ≤ 100 then .follower else .outOfSync }
  | none => r

/-- The replica set after `ISRSet::update_follower_offset`. -/
def updateFollowerOffset (overflowChecks : Bool) (isr : ISRSet) (brokerId : String)
    (offset leaderOffset : Int64) (now : SystemTime) : ISRSet :=
  { isr with
    replicas := isr.replicas.modify brokerId (fetched overflowChecks offset leaderOffset now) }

/-- `ISRSet::update_follower_offset` panics. -/
def panics (overflowChecks : Bool) (isr : ISRSet) (brokerId : String)
    (offset leaderOffset : Int64) : Bool :=
  (isr.replicas.lookup brokerId).isSome && (i64Sub overflowChecks leaderOffset offset).isNone

/-- The filter of `get_isr`. -/
def inSync (r : ReplicaInfo) : Bool :=
  r.state = .leader || r.state = .follower

/-- `ISRSet::get_isr`, iterating the replicas in the order of `order`. -/
def getIsr (isr : ISRSet) (order : List String) : List String :=
  ((isr.replicas.iter order).filter fun p => inSync p.2).map (·.1)

/-- `ISRSet::remove_replica`. -/
def removeReplica (isr : ISRSet) (brokerId : String) : ISRSet :=
  { isr with replicas := isr.replicas.erase brokerId }

/-- The replica `id` after the loop of `elect_leader`: the new leader is
promoted, any other leader becomes a follower. -/
def afterElection (newLeader : String) (id : String) (r : ReplicaInfo) : ReplicaInfo :=
  if id = newLeader then { r with state := .leader }
  else if r.state = .leader then { r with state := .follower }
  else r

/-- The body of `ReplicationManager::elect_leader` on the set it finds. -/
def electLeader (isr : ISRSet) (order : List String) : Except String String × ISRSet :=
  match isr.getIsr order with
  | [] => (.error "No in-sync replicas available", isr)
  | newLeader :: _ =>
      (.ok newLeader,
        { isr with
          replicas := isr.replicas.mapVals (afterElection newLeader)
          leaderId := newLeader })

end ISRSet

/-- `ReplicationManager`. -/
structure ReplicationManager where
  isrSets : HashMap Int32 ISRSet
  replicationFactor : Nat

namespace ReplicationManager

/-- `ReplicationManager::new`. -/
def new (replicationFactor : Nat) : ReplicationManager where
  isrSets := ∅
  replicationFactor := replicationFactor

/-- `ReplicationManager::init_partition`. -/
def initPartition (m : ReplicationManager) (partitionId : Int32) (leaderId : String)
    (now : SystemTime) : ReplicationManager :=
  { m with
    isrSets := m.isrSets.insert partitionId
      (ISRSet.new partitionId leaderId (m.replicationFactor / 2 + 1) now) }

/-- The error of every operation on a partition without a replica set. -/
def notFound (partitionId : Int32) : String := s!"Partition {partitionId} not found"

/-- Write back the replica set of one partition (`isr_sets.get_mut`). -/
def setIsr (m : ReplicationManager) (partitionId : Int32) (isr : ISRSet) :
    ReplicationManager :=
  { m with isrSets := m.isrSets.insert partitionId isr }

/-- `ReplicationManager::add_follower`. -/
def addFollower (m : ReplicationManager) (partitionId : Int32) (brokerId : String)
    (now : SystemTime) : Except String Unit × ReplicationManager :=
  match m.isrSets.lookup partitionId with
  | some isr => (.ok (), m.setIsr partitionId (isr.addFollower brokerId now))
  | none => (.error (notFound partitionId), m)

/-- `ReplicationManager::update_follower_offset`; the result is `none` if it panics. -/
def updateFollowerOffset (overflowChecks : Bool) (m : ReplicationManager) (partitionId : Int32)
    (brokerId : String) (offset leaderOffset : Int64) (now : SystemTime) :
    Option (Except String Unit) × ReplicationManager :=
  match m.isrSets.lookup partitionId with
  | some isr =>
      (if isr.panics overflowChecks brokerId offset leaderOffset then none else some (.ok ()),
        m.setIsr partitionId
          (isr.updateFollowerOffset overflowChecks brokerId offset leaderOffset now))
  | none => (some (.error (notFound partitionId)), m)

/-- `ISRSet::remove_replica` on the replica set of a partition. -/
def removeReplica (m : ReplicationManager) (partitionId : Int32) (brokerId : String) :
    ReplicationManager :=
  match m.isrSets.lookup partitionId with
  | some isr => m.setIsr partitionId (isr.removeReplica brokerId)
  | none => m

/-- `ReplicationManager::elect_leader`. -/
def electLeader (m : ReplicationManager) (partitionId : Int32) (order : List String) :
    Except String String × ReplicationManager :=
  match m.isrSets.lookup partitionId with
  | some isr =>
      let (result, isr') := isr.electLeader order
      (result, m.setIsr partitionId isr')
  | none => (.error (notFound partitionId), m)

end ReplicationManager

/-! ### Runs of the manager -/

/-- One call on the manager.  The order in which `elect_leader` iterates the
replica map is part of the call; a call with a list that does not enumerate
the map cannot happen and changes nothing. -/
inductive ReplicationOp
  | initPartition (partitionId : Int32) (leaderId : String) (now : SystemTime)
  | addFollower (partitionId : Int32) (brokerId : String) (now : SystemTime)
  | updateFollowerOffset (partitionId : Int32) (brokerId : String)
      (offset leaderOffset : Int64) (now : SystemTime)
  | removeReplica (partitionId : Int32) (brokerId : String)
  | electLeader (partitionId : Int32) (order : List String)

namespace ReplicationManager

/-- `order` is an iteration order of the replicas of the partition. -/
def IsOrder (m : ReplicationManager) (partitionId : Int32) (order : List String) : Prop :=
  ∀ isr ∈ m.isrSets.lookup partitionId, HashMap.Enumerates order isr.replicas

instance (m : ReplicationManager) (partitionId : Int32) (order : List String) :
    Decidable (m.IsOrder partitionId order) :=
  match h : m.isrSets.lookup partitionId with
  | some isr =>
      decidable_of_iff (HashMap.Enumerates order isr.replicas) (by simp [IsOrder, h])
  | none => .isTrue (by simp [IsOrder, h])

/-- The manager after one call. -/
def step (overflowChecks : Bool) (m : ReplicationManager) : ReplicationOp → ReplicationManager
  | .initPartition p l now => m.initPartition p l now
  | .addFollower p b now => (m.addFollower p b now).2
  | .updateFollowerOffset p b o lo now =>
      (m.updateFollowerOffset overflowChecks p b o lo now).2
  | .removeReplica p b => m.removeReplica p b
  | .electLeader p order =>
      if m.IsOrder p order then (m.electLeader p order).2 else m

/-- The replica set of a partition, if it has been initialised. -/
def isrOf (m : ReplicationManager) (p : Int32) : Option ISRSet := m.isrSets.lookup p

end ReplicationManager

/-! ### Exactly one leader -/

/-- The replicas in state `leader` are exactly the one `leaderId` names. -/
def ISRSet.OneLeader (isr : ISRSet) : Prop :=
  ∀ id, (∃ r, isr.replicas.lookup id = some r ∧ r.state = .leader) ↔ id = isr.leaderId

/-- Every non-empty replica set has exactly one leader, the one it names. -/
def ReplicationManager.LeaderNamed (m : ReplicationManager) : Prop :=
  ∀ p isr, m.isrOf p = some isr → isr.replicas ≠ ∅ → isr.OneLeader

/-- The calls that leave the leader of every replica set in place: a follower
operation does not name the leader (and does not enter an emptied set) unless
its lag overflows, the leader is removed only as the last replica. -/
def ReplicationManager.KeepsLeader (overflowChecks : Bool) (m : ReplicationManager) :
    ReplicationOp → Prop
  | .initPartition .. => True
  | .addFollower p b _ =>
      ∀ isr, m.isrOf p = some isr → isr.replicas ≠ ∅ ∧ b ≠ isr.leaderId
  | .updateFollowerOffset p b o lo _ =>
      ∀ isr, m.isrOf p = some isr → b ∈ isr.replicas →
        b ≠ isr.leaderId ∨ i64Sub overflowChecks lo o = none
  | .removeReplica p b =>
      ∀ isr, m.isrOf p = some isr → b = isr.leaderId → isr.replicas.erase b = ∅
  | .electLeader .. => True

namespace ISRSet

variable {isr : ISRSet} {overflowChecks : Bool}

theorem new_oneLeader (p : Int32) (l : String) (k : Nat) (now : SystemTime) :
    (new p l k now).OneLeader := by
  intro id
  simp only [new, HashMap.lookup_insert_eq]
  constructor
  · rintro ⟨r, hr, -⟩
    by_contra h
    simp [h] at hr
  · rintro rfl
    exact ⟨_, if_pos rfl, rfl⟩

theorem OneLeader.leader_mem (h : isr.OneLeader) : isr.leaderId ∈ isr.replicas := by
  obtain ⟨r, hr, -⟩ := (h isr.leaderId).mpr rfl
  exact Finmap.mem_of_lookup_eq_some hr

/-- A leader is removed by an update of one replica that leaves it in another
state, and by nothing else: the common core of `add_follower` and
`update_follower_offset`. -/
theorem OneLeader.update_iff (h : isr.OneLeader) {isr' : ISRSet} {b : String}
    (hl : isr'.leaderId = isr.leaderId)
    (hself : ∀ r, isr'.replicas.lookup b = some r → r.state ≠ .leader)
    (hother : ∀ id, id ≠ b → isr'.replicas.lookup id = isr.replicas.lookup id) :
    isr'.OneLeader ↔ b ≠ isr.leaderId := by
  constructor
  · -- if `b` was the leader, no replica is in its place now
    rintro h' rfl
    obtain ⟨r, hr, hs⟩ := (h' isr.leaderId).mpr hl.symm
    exact hself r hr hs
  · intro hb id
    rw [hl]
    by_cases hid : id = b
    · subst hid
      constructor
      · rintro ⟨r, hr, hs⟩
        exact absurd hs (hself r hr)
      · intro e
        exact absurd e hb
    · rw [hother id hid]
      exact h id

theorem OneLeader.addFollower_iff (h : isr.OneLeader) (b : String) (now : SystemTime) :
    (isr.addFollower b now).OneLeader ↔ b ≠ isr.leaderId := by
  refine h.update_iff rfl ?_ ?_
  · intro r hr
    simp only [addFollower, Finmap.lookup_insert, Option.some.injEq] at hr
    subst hr
    simp
  · intro id hid
    simp only [addFollower, HashMap.lookup_insert_eq, if_neg hid]

/-- Who is leader is a matter of the states. -/
theorem oneLeader_congr {isr' : ISRSet} (hl : isr'.leaderId = isr.leaderId)
    (hstate : ∀ id, (isr'.replicas.lookup id).map ReplicaInfo.state =
      (isr.replicas.lookup id).map ReplicaInfo.state) :
    isr'.OneLeader ↔ isr.OneLeader := by
  have hleads : ∀ (replicas : HashMap String ReplicaInfo) (id : String),
      (∃ r, replicas.lookup id = some r ∧ r.state = .leader) ↔
        (replicas.lookup id).map ReplicaInfo.state = some .leader :=
    fun replicas id => Option.map_eq_some_iff.symm
  unfold OneLeader
  rw [hl]
  refine forall_congr' fun id => ?_
  rw [hleads, hleads, hstate]

theorem state_fetched_of_none {o lo : Int64} (h : i64Sub overflowChecks lo o = none)
    (now : SystemTime) (r : ReplicaInfo) : (fetched overflowChecks o lo now r).state = r.state := by
  rw [fetched, h]

theorem OneLeader.updateFollowerOffset_iff (h : isr.OneLeader) (b : String)
    (o lo : Int64) (now : SystemTime) :
    (isr.updateFollowerOffset overflowChecks b o lo now).OneLeader ↔
      b ≠ isr.leaderId ∨ i64Sub overflowChecks lo o = none := by
  cases hlag : i64Sub overflowChecks lo o with
  | none =>
      -- the states are not written
      have hsame : (isr.updateFollowerOffset overflowChecks b o lo now).OneLeader ↔
          isr.OneLeader := by
        refine oneLeader_congr rfl fun id => ?_
        simp only [updateFollowerOffset, HashMap.lookup_modify]
        split
        · rename_i hid
          rw [hid, Option.map_map]
          exact congrFun (congrArg _ (funext (state_fetched_of_none hlag now))) _
        · rfl
      exact iff_of_true (hsame.mpr h) (.inr rfl)
  | some lag =>
      simp only [reduceCtorEq, or_false]
      refine h.update_iff rfl ?_ ?_
      · intro r hr
        simp only [updateFollowerOffset, HashMap.lookup_modify, if_true,
          Option.map_eq_some_iff] at hr
        obtain ⟨r₀, -, rfl⟩ := hr
        simp only [fetched, hlag]
        split <;> simp
      · intro id hid
        simp only [updateFollowerOffset, HashMap.lookup_modify, if_neg hid]

theorem OneLeader.removeReplica_iff (h : isr.OneLeader) (b : String) :
    (isr.removeReplica b).OneLeader ↔ b ≠ isr.leaderId := by
  refine h.update_iff rfl ?_ ?_
  · intro r hr
    simp [removeReplica, Finmap.lookup_erase] at hr
  · intro id hid
    simp only [removeReplica, HashMap.lookup_erase_eq, if_neg hid]

/-- A set that enumerates to no in-sync replica is left alone; otherwise the
first one becomes the only leader, whatever the states were before. -/
theorem electLeader_cases (isr : ISRSet) {order : List String}
    (horder : HashMap.Enumerates order isr.replicas) :
    ((isr.electLeader order).2 = isr ∧ ∀ id r, isr.replicas.lookup id = some r →
        inSync r = false) ∨
      ((isr.electLeader order).2.OneLeader ∧
        ∃ r, isr.replicas.lookup (isr.electLeader order).2.leaderId = some r) := by
  unfold electLeader
  rcases e : isr.getIsr order with - | ⟨l, rest⟩
  · -- nobody is in sync: the call fails and writes nothing
    left
    refine ⟨rfl, ?_⟩
    intro id r hr
    have hmem := horder.mem_iter.mpr hr
    simp only [getIsr, List.map_eq_nil_iff, List.filter_eq_nil_iff] at e
    simpa using e (id, r) hmem
  · right
    have hl : l ∈ isr.getIsr order := by
      rw [e]
      exact List.mem_cons_self
    simp only [getIsr, List.mem_map, List.mem_filter] at hl
    obtain ⟨⟨l', r⟩, ⟨hr, -⟩, rfl⟩ := hl
    have hr' := horder.mem_iter.mp hr
    refine ⟨?_, r, hr'⟩
    -- the loop promotes `l'` and demotes every other leader
    intro id
    simp only [HashMap.lookup_mapVals, Option.map_eq_some_iff]
    constructor
    · rintro ⟨r', ⟨r₀, -, rfl⟩, hs⟩
      by_contra hid
      simp only [afterElection, if_neg hid] at hs
      split at hs <;> simp_all
    · rintro rfl
      exact ⟨_, ⟨r, hr', rfl⟩, by simp [afterElection]⟩

end ISRSet

namespace ReplicationManager

variable {m : ReplicationManager} {overflowChecks : Bool}

theorem isrOf_setIsr (m : ReplicationManager) (p q : Int32) (isr : ISRSet) :
    (m.setIsr p isr).isrOf q = if q = p then some isr else m.isrOf q :=
  HashMap.lookup_insert_eq m.isrSets p q isr

/-- Writing back one replica set keeps the others, so only that set counts. -/
theorem LeaderNamed.setIsr_iff (h : m.LeaderNamed) (p : Int32) (isr : ISRSet) :
    (m.setIsr p isr).LeaderNamed ↔ (isr.replicas ≠ ∅ → isr.OneLeader) := by
  constructor
  · intro h' hne
    exact h' p isr (by rw [isrOf_setIsr, if_pos rfl]) hne
  · intro hisr q isr' hq hne
    rw [isrOf_setIsr] at hq
    by_cases hqp : q = p
    · rw [if_pos hqp, Option.some.injEq] at hq
      subst hq
      exact hisr hne
    · rw [if_neg hqp] at hq
      exact h q isr' hq hne

theorem addFollower_keeps_iff (h : m.LeaderNamed) (p : Int32) (b : String)
    (now : SystemTime) :
    (m.addFollower p b now).2.LeaderNamed ↔
      m.KeepsLeader overflowChecks (.addFollower p b now) := by
  unfold addFollower KeepsLeader isrOf
  rcases e : m.isrSets.lookup p with - | isr
  · simpa [e] using h
  · simp only [e, Option.some.injEq, forall_eq']
    rw [h.setIsr_iff]
    have hne : (isr.addFollower b now).replicas ≠ ∅ := by
      intro h0
      have : b ∈ (isr.addFollower b now).replicas := by simp [ISRSet.addFollower]
      rw [h0] at this
      exact Finmap.notMem_empty this
    simp only [hne, ne_eq, not_false_eq_true, forall_const]
    by_cases h0 : isr.replicas = ∅
    · -- an emptied set has no leader to keep: the newcomer is a follower
      simp only [h0, not_true_eq_false, false_and, iff_false]
      intro hone
      obtain ⟨r, hr, hs⟩ := (hone isr.leaderId).mpr rfl
      simp only [ISRSet.addFollower, HashMap.lookup_insert_eq, h0,
        Finmap.lookup_empty] at hr
      split at hr
      · obtain rfl := Option.some.inj hr
        exact absurd hs (by simp)
      · cases hr
    · rw [(h p isr e h0).addFollower_iff]
      simp [h0]

theorem updateFollowerOffset_keeps_iff (h : m.LeaderNamed) (p : Int32) (b : String)
    (o lo : Int64) (now : SystemTime) :
    (m.updateFollowerOffset overflowChecks p b o lo now).2.LeaderNamed ↔
      m.KeepsLeader overflowChecks (.updateFollowerOffset p b o lo now) := by
  unfold updateFollowerOffset KeepsLeader isrOf
  rcases e : m.isrSets.lookup p with - | isr
  · simpa [e] using h
  · simp only [e, Option.some.injEq, forall_eq']
    rw [h.setIsr_iff]
    by_cases h0 : isr.replicas = ∅
    · -- nothing to update in an emptied set
      have hb : b ∉ isr.replicas := by
        rw [h0]
        exact Finmap.notMem_empty
      have hsame : (isr.updateFollowerOffset overflowChecks b o lo now).replicas = ∅ := by
        simp [ISRSet.updateFollowerOffset, HashMap.modify, h0]
      simp [hsame, hb]
    · have hone := h p isr e h0
      have hne : (isr.updateFollowerOffset overflowChecks b o lo now).replicas ≠ ∅ := by
        intro he
        obtain ⟨r, hr, -⟩ := (hone isr.leaderId).mpr rfl
        have hlook := congrArg (Finmap.lookup isr.leaderId) he
        simp only [ISRSet.updateFollowerOffset, HashMap.lookup_modify, hr,
          Finmap.lookup_empty] at hlook
        split at hlook <;> simp at hlook
      simp only [ne_eq, hne, not_false_eq_true, forall_const]
      rw [hone.updateFollowerOffset_iff]
      constructor
      · intro hb _
        exact hb
      · intro hb
        by_cases hleader : b = isr.leaderId
        · exact hb (hleader ▸ hone.leader_mem)
        · exact .inl hleader

theorem removeReplica_keeps_iff (h : m.LeaderNamed) (p : Int32) (b : String) :
    (m.removeReplica p b).LeaderNamed ↔
      m.KeepsLeader overflowChecks (.removeReplica p b) := by
  unfold removeReplica KeepsLeader isrOf
  rcases e : m.isrSets.lookup p with - | isr
  · simpa [e] using h
  · simp only [e, Option.some.injEq, forall_eq']
    rw [h.setIsr_iff]
    by_cases h0 : isr.replicas.erase b = ∅
    · simp [ISRSet.removeReplica, h0]
    · have hne : isr.replicas ≠ ∅ := by
        rintro he
        apply h0
        apply Finmap.ext_lookup
        intro id
        rw [HashMap.lookup_erase_eq, he, Finmap.lookup_empty, ite_self]
      rw [(h p isr e hne).removeReplica_iff]
      simp [ISRSet.removeReplica, h0]

theorem electLeader_keeps (h : m.LeaderNamed) (p : Int32) {order : List String}
    (horder : m.IsOrder p order) : (m.electLeader p order).2.LeaderNamed := by
  unfold electLeader
  rcases e : m.isrSets.lookup p with - | isr
  · simpa using h
  · simp only
    rw [h.setIsr_iff]
    intro hne
    rcases isr.electLeader_cases (horder isr e) with ⟨hsame, -⟩ | ⟨hone, -⟩
    · rw [hsame] at hne ⊢
      exact h p isr e hne
    · exact hone

/-- **One call keeps the leaders named exactly when it `KeepsLeader`.** -/
theorem step_leaderNamed_iff (h : m.LeaderNamed) (op : ReplicationOp) :
    (m.step overflowChecks op).LeaderNamed ↔ m.KeepsLeader overflowChecks op := by
  cases op with
  | initPartition p l now =>
      refine iff_of_true ?_ trivial
      exact (h.setIsr_iff p _).mpr fun _ => ISRSet.new_oneLeader p l _ now
  | addFollower p b now => exact addFollower_keeps_iff h p b now
  | updateFollowerOffset p b o lo now => exact updateFollowerOffset_keeps_iff h p b o lo now
  | removeReplica p b => exact removeReplica_keeps_iff h p b
  | electLeader p order =>
      refine iff_of_true ?_ trivial
      simp only [step]
      split
      · exact electLeader_keeps h p ‹_›
      · exact h

theorem new_leaderNamed (factor : Nat) : (new factor).LeaderNamed := by
  intro p isr hp
  simp [isrOf, new] at hp

/-- **Exactly one leader.**  Along every run of the manager, every non-empty
replica set has exactly one leader, the one it names, if and only if every
call of the run keeps the leader in place. -/
theorem leaderNamed_always_iff (overflowChecks : Bool) (factor : Nat) (ops : List ReplicationOp) :
    Always (step overflowChecks) LeaderNamed (new factor) ops ↔
      Along (step overflowChecks) (KeepsLeader overflowChecks) (new factor) ops :=
  always_iff_along (D := fun _ _ => True) (I := fun _ => True) (Along.of_forall fun _ _ => trivial)
    trivial (new_leaderNamed factor) (fun _ _ _ _ => trivial)
    (fun _ op _ _ h => step_leaderNamed_iff h op)

/-- A fetch reported under the leader's own id demotes it, in either build:
afterwards the replica set of partition 0 names a leader and has none. -/
theorem leader_fetch_demotes :
    ¬ ∃ overflowChecks, ∀ ops, Always (step overflowChecks) LeaderNamed (new 3)
      (.initPartition 0 "b0" .unixEpoch :: ops) := by
  rintro ⟨overflowChecks, h⟩
  have hlast := (h [.updateFollowerOffset 0 "b0" 0 0 .unixEpoch]).last
  set isr := (ISRSet.new 0 "b0" 2 .unixEpoch).updateFollowerOffset overflowChecks "b0" 0 0
    .unixEpoch with hdef
  have hisr : isr.replicas ≠ ∅ := by
    intro he
    have : (isr.replicas.lookup "b0").isSome = true := by
      cases overflowChecks <;> decide
    rw [he] at this
    simp at this
  obtain ⟨r, hr, hs⟩ := (hlast 0 isr rfl hisr "b0").mpr rfl
  have hf : (isr.replicas.lookup "b0").map (·.state) = some .follower := by
    cases overflowChecks <;> decide
  rw [hr, Option.map_some, hs] at hf
  cases hf

end ReplicationManager

end Rafka
