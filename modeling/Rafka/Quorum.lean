/-
Rafka/Quorum.lean

Enough replicas in sync (`get_isr`, `has_min_isr` and `get_leader` in
`crates/broker/src/replication.rs`).

A partition has enough replicas in sync if they are more than half of the replication
factor.  Who is in sync is kept in the states of the replicas, which fetches, additions,
removals and elections all write; but it is the reports alone that decide it, since an
election takes nobody into the set and drops nobody from it (`isr_is_history`).

More than half is chosen for what it gives: as long as no more brokers than the replication
factor are ever made replicas of a partition, two moments at which it has enough of them in
sync have one in common (`in_sync_majorities_meet`), however many leaders have been elected
and whoever has fallen behind in between.

A report whose lag overflows panics in a build with overflow checks before it writes a state;
there it is no report (`stand`).
-/
import Mathlib.Data.Finset.Card
import Rafka.Election

namespace Rafka

namespace ISRSet

/-- `ISRSet::has_min_isr`. -/
def hasMinIsr (isr : ISRSet) (order : List String) : Bool := isr.minIsr ≤ (isr.getIsr order).length

end ISRSet

namespace ReplicationManager

/-- `ReplicationManager::get_isr`. -/
def getIsr (m : ReplicationManager) (partitionId : Int32) (order : List String) :
    Except String (List String) :=
  match m.isrSets.lookup partitionId with
  | some isr => .ok (isr.getIsr order)
  | none => .error (notFound partitionId)

/-- `ReplicationManager::has_min_isr`. -/
def hasMinIsr (m : ReplicationManager) (partitionId : Int32) (order : List String) : Bool :=
  ((m.isrSets.lookup partitionId).map fun isr => isr.hasMinIsr order).getD false

/-- `ReplicationManager::get_leader`. -/
def getLeader (m : ReplicationManager) (partitionId : Int32) : Option String :=
  (m.isrSets.lookup partitionId).map fun isr => isr.leaderId

/-- A run of the manager. -/
def run (overflowChecks : Bool) (replicationFactor : Nat) (ops : List ReplicationOp) :
    ReplicationManager :=
  ops.foldl (step overflowChecks) (new replicationFactor)

end ReplicationManager

namespace ReplicationOp

/-- What is known of a replica of a partition: whether the partition has been initialised,
and whether the replica, if it is one, was last said to be in sync. -/
structure Standing where
  initialised : Bool
  inSync : Option Bool
deriving DecidableEq

/-- What is known after one more call.  An election says nothing about anyone, and neither
does a report whose lag overflows in a build with overflow checks. -/
def stand (overflowChecks : Bool) (p : Int32) (b : String) (s : Standing) :
    ReplicationOp → Standing
  | .initPartition q leader _ =>
      if p = q then ⟨true, if b = leader then some true else none⟩ else s
  | .addFollower q follower _ =>
      if p = q ∧ b = follower ∧ s.initialised then { s with inSync := some true } else s
  | .updateFollowerOffset q follower offset leaderOffset _ =>
      match i64Sub overflowChecks leaderOffset offset with
      | some lag =>
          if p = q ∧ b = follower then { s with inSync := s.inSync.map fun _ => lag ≤ 100 } else s
      | none => s
  | .removeReplica q replica => if p = q ∧ b = replica then { s with inSync := none } else s
  | .electLeader .. => s

/-- What is known after a run. -/
def standing (overflowChecks : Bool) (p : Int32) (b : String) (ops : List ReplicationOp) :
    Standing :=
  ops.foldl (stand overflowChecks p b) ⟨false, none⟩

/-- The partition has been initialised. -/
def Initialised (p : Int32) (ops : List ReplicationOp) : Prop :=
  ∃ leader now, .initPartition p leader now ∈ ops

/-- The call initialises the partition. -/
def initialises (p : Int32) : ReplicationOp → Bool
  | .initPartition q _ _ => p = q
  | _ => false

/-- The broker that the call makes a replica of the partition, if it does. -/
def enters (p : Int32) (initialised : Bool) : ReplicationOp → Option String
  | .initPartition q leader _ => if p = q then some leader else none
  | .addFollower q follower _ => if p = q ∧ initialised then some follower else none
  | _ => none

/-- The brokers that the calls make replicas of the partition, in order. -/
def entered (p : Int32) : Bool → List ReplicationOp → List String
  | _, [] => []
  | initialised, op :: ops =>
      (enters p initialised op).toList ++ entered p (initialised || initialises p op) ops

end ReplicationOp

/-! ### The reports decide -/

namespace ISRSet

variable {isr : ISRSet} {order : List String} {b : String} {overflowChecks : Bool}

/-- What the set knows of a broker. -/
def knows (isr : ISRSet) (b : String) : Option Bool := (isr.replicas.lookup b).map inSync

theorem mem_getIsr_iff (h : HashMap.Enumerates order isr.replicas) :
    b ∈ isr.getIsr order ↔ isr.knows b = some true := by
  rw [mem_getIsr h, knows, Option.map_eq_some_iff]

theorem nodup_getIsr (h : HashMap.Enumerates order isr.replicas) : (isr.getIsr order).Nodup := by
  have hfilter : List.Sublist ((isr.replicas.iter order).filter fun p => inSync p.2)
      (isr.replicas.iter order) := List.filter_sublist
  exact h.1.sublist ((hfilter.map Prod.fst).trans (HashMap.map_fst_iter_sublist order isr.replicas))

theorem knows_new (p : Int32) (leader : String) (k : Nat) (now : SystemTime) (b : String) :
    (new p leader k now).knows b = if b = leader then some true else none := by
  rw [knows, new, HashMap.lookup_insert_eq]
  split
  · rfl
  · rfl

theorem knows_addFollower (isr : ISRSet) (follower : String) (now : SystemTime) (b : String) :
    (isr.addFollower follower now).knows b = if b = follower then some true else isr.knows b := by
  rw [knows, lookup_addFollower]
  split
  · rfl
  · rfl

theorem inSync_fetched (overflowChecks : Bool) (offset leaderOffset : Int64) (now : SystemTime)
    (r : ReplicaInfo) :
    inSync (fetched overflowChecks offset leaderOffset now r) =
      match i64Sub overflowChecks leaderOffset offset with
      | some lag => decide (lag ≤ 100)
      | none => inSync r := by
  unfold fetched
  cases i64Sub overflowChecks leaderOffset offset with
  | none => rfl
  | some lag =>
      by_cases hlag : lag ≤ 100
      · simp [inSync, hlag]
      · simp [inSync, hlag]

theorem knows_updateFollowerOffset (isr : ISRSet) (follower : String) (offset leaderOffset : Int64)
    (now : SystemTime) (b : String) :
    (isr.updateFollowerOffset overflowChecks follower offset leaderOffset now).knows b =
      match i64Sub overflowChecks leaderOffset offset with
      | some lag => if b = follower then (isr.knows b).map fun _ => decide (lag ≤ 100)
          else isr.knows b
      | none => isr.knows b := by
  have hfetched := inSync_fetched overflowChecks offset leaderOffset now
  rw [knows, updateFollowerOffset, HashMap.lookup_modify]
  by_cases hb : b = follower
  · rw [if_pos hb, Option.map_map, knows, hb]
    cases hlag : i64Sub overflowChecks leaderOffset offset with
    | none =>
        refine congrFun (congrArg _ (funext fun r => ?_)) _
        show inSync (fetched overflowChecks offset leaderOffset now r) = inSync r
        rw [hfetched, hlag]
    | some lag =>
        dsimp only
        rw [if_pos rfl, Option.map_map]
        refine congrFun (congrArg _ (funext fun r => ?_)) _
        show inSync (fetched overflowChecks offset leaderOffset now r) = decide (lag ≤ 100)
        rw [hfetched, hlag]
  · rw [if_neg hb]
    cases i64Sub overflowChecks leaderOffset offset with
    | none => rfl
    | some lag => exact (if_neg hb).symm

theorem knows_removeReplica (isr : ISRSet) (replica b : String) :
    (isr.removeReplica replica).knows b = if b = replica then none else isr.knows b := by
  rw [knows, removeReplica, HashMap.lookup_erase_eq]
  split
  · rfl
  · rfl

/-- An election takes nobody in and drops nobody. -/
theorem knows_electLeader (h : HashMap.Enumerates order isr.replicas) (b : String) :
    (isr.electLeader order).2.knows b = isr.knows b := by
  rw [electLeader_eq]
  split
  · rfl
  · rename_i leader hhead
    obtain ⟨r, hr, hsync⟩ := (mem_getIsr h).mp (List.mem_of_mem_head? hhead)
    rw [knows, knows, HashMap.lookup_mapVals, Option.map_map]
    cases hlookup : isr.replicas.lookup b with
    | none => rfl
    | some r' =>
        apply congrArg some
        apply inSync_afterElection_iff
        rintro rfl
        rw [hr] at hlookup
        cases hlookup
        exact hsync

end ISRSet

namespace ReplicationManager

open ReplicationOp

variable {m : ReplicationManager} {p : Int32} {b : String} {overflowChecks : Bool}

/-- The set of one partition is changed, if there is one. -/
def change (m : ReplicationManager) (q : Int32) (f : ISRSet → ISRSet) : ReplicationManager :=
  { m with isrSets := HashMap.modify q f m.isrSets }

theorem isrOf_change (m : ReplicationManager) (q : Int32) (f : ISRSet → ISRSet) (p : Int32) :
    (m.change q f).isrOf p = if p = q then (m.isrOf p).map f else m.isrOf p := by
  rw [isrOf, change, HashMap.lookup_modify]
  split
  · rename_i hp
    rw [hp]
    rfl
  · rfl

theorem addFollower_eq (m : ReplicationManager) (q : Int32) (follower : String) (now : SystemTime) :
    (m.addFollower q follower now).2 = m.change q fun isr => isr.addFollower follower now := by
  rw [addFollower, change, HashMap.modify]
  cases m.isrSets.lookup q with
  | none => rfl
  | some isr => rfl

theorem updateFollowerOffset_eq (m : ReplicationManager) (q : Int32) (follower : String)
    (offset leaderOffset : Int64) (now : SystemTime) :
    (m.updateFollowerOffset overflowChecks q follower offset leaderOffset now).2 =
      m.change q fun isr =>
        isr.updateFollowerOffset overflowChecks follower offset leaderOffset now := by
  rw [updateFollowerOffset, change, HashMap.modify]
  cases m.isrSets.lookup q with
  | none => rfl
  | some isr => rfl

theorem removeReplica_eq (m : ReplicationManager) (q : Int32) (replica : String) :
    m.removeReplica q replica = m.change q fun isr => isr.removeReplica replica := by
  rw [removeReplica, change, HashMap.modify]
  cases m.isrSets.lookup q with
  | none => rfl
  | some isr => rfl

theorem electLeader_eq_change (m : ReplicationManager) (q : Int32) (order : List String) :
    (m.electLeader q order).2 = m.change q fun isr => (isr.electLeader order).2 := by
  rw [electLeader, change, HashMap.modify]
  cases m.isrSets.lookup q with
  | none => rfl
  | some isr => rfl

/-- What the manager knows of a replica of a partition. -/
def standingOf (m : ReplicationManager) (p : Int32) (b : String) : Standing :=
  ⟨(m.isrOf p).isSome, (m.isrOf p).bind fun isr => isr.knows b⟩

/-- Nothing is known of the replicas of a partition that has not been initialised. -/
theorem inSync_standingOf_eq_none (h : (m.standingOf p b).initialised = false) :
    (m.standingOf p b).inSync = none := by
  have hisr : m.isrOf p = none := Option.not_isSome_iff_eq_none.mp (Bool.not_eq_true _ ▸ h)
  rw [standingOf, hisr, Option.bind_none]

/-- A change of one replica set, by what it makes of that which the set knows. -/
theorem standingOf_change (m : ReplicationManager) (q : Int32) {f : ISRSet → ISRSet}
    (known : Option Bool → Option Bool)
    (hknows : ∀ isr, m.isrOf q = some isr → (f isr).knows b = known (isr.knows b)) :
    (m.change q f).standingOf p b =
      if p = q ∧ (m.standingOf p b).initialised then
        { m.standingOf p b with inSync := known (m.standingOf p b).inSync }
      else m.standingOf p b := by
  rw [standingOf, isrOf_change]
  by_cases hp : p = q
  · subst hp
    cases hisr : m.isrOf p with
    | none => simp [standingOf, hisr]
    | some isr => simp [standingOf, hisr, hknows isr hisr]
  · simp [standingOf, hp]

/-- The same where the change makes nobody a replica. -/
theorem standingOf_change_of_none (m : ReplicationManager) (q : Int32) {f : ISRSet → ISRSet}
    (known : Option Bool → Option Bool) (hnone : known none = none)
    (hknows : ∀ isr, m.isrOf q = some isr → (f isr).knows b = known (isr.knows b)) :
    (m.change q f).standingOf p b =
      if p = q then { m.standingOf p b with inSync := known (m.standingOf p b).inSync }
      else m.standingOf p b := by
  rw [standingOf_change m q known hknows]
  cases hinit : (m.standingOf p b).initialised with
  | true => simp
  | false =>
      have hunknown := inSync_standingOf_eq_none hinit
      generalize m.standingOf p b = s at hinit hunknown
      obtain ⟨initialised, inSync⟩ := s
      cases hunknown
      simp [hnone]

theorem standingOf_step (m : ReplicationManager) (op : ReplicationOp) :
    (m.step overflowChecks op).standingOf p b =
      stand overflowChecks p b (m.standingOf p b) op := by
  cases op with
  | initPartition q leader now =>
      rw [step, initPartition, standingOf, isrOf, HashMap.lookup_insert_eq, stand]
      split
      · exact congrArg (Standing.mk true) (ISRSet.knows_new ..)
      · rfl
  | addFollower q follower now =>
      rw [step, addFollower_eq, stand,
        standingOf_change m q (fun known => if b = follower then some true else known)
          fun isr _ => isr.knows_addFollower follower now b]
      by_cases hb : b = follower
      · simp [hb]
      · simp [hb]
  | updateFollowerOffset q follower offset leaderOffset now =>
      have hknows (isr : ISRSet) :
          (isr.updateFollowerOffset overflowChecks follower offset leaderOffset now).knows b = _ :=
        isr.knows_updateFollowerOffset follower offset leaderOffset now b
      rw [step, updateFollowerOffset_eq, stand]
      cases hlag : i64Sub overflowChecks leaderOffset offset with
      | none =>
          rw [hlag] at hknows
          rw [standingOf_change_of_none m q id rfl fun isr _ => hknows isr]
          exact ite_self _
      | some lag =>
          rw [hlag] at hknows
          rw [standingOf_change_of_none m q
            (fun known => if b = follower then known.map fun _ => decide (lag ≤ 100) else known)
            (ite_self none) fun isr _ => hknows isr]
          by_cases hb : b = follower
          · simp [hb]
          · simp [hb]
  | removeReplica q replica =>
      rw [step, removeReplica_eq, stand,
        standingOf_change_of_none m q (fun known => if b = replica then none else known)
          (ite_self none) fun isr _ => isr.knows_removeReplica replica b]
      by_cases hb : b = replica
      · simp [hb]
      · simp [hb]
  | electLeader q order =>
      rw [step, stand]
      split
      · rename_i horder
        rw [electLeader_eq_change, standingOf_change_of_none m q id rfl fun isr hisr =>
          ISRSet.knows_electLeader (horder isr hisr) b]
        exact ite_self _
      · rfl

theorem run_concat (replicationFactor : Nat) (ops : List ReplicationOp) (op : ReplicationOp) :
    run overflowChecks replicationFactor (ops ++ [op]) =
      (run overflowChecks replicationFactor ops).step overflowChecks op :=
  List.foldl_concat ..

/-- The manager knows what its history says. -/
theorem standingOf_run (replicationFactor : Nat) (ops : List ReplicationOp) :
    (run overflowChecks replicationFactor ops).standingOf p b =
      standing overflowChecks p b ops := by
  induction ops using List.reverseRecOn with
  | nil => rfl
  | append_singleton ops op ih =>
      rw [run_concat, standingOf_step, ih, standing, standing, List.foldl_concat]

/-- Every set asks for more than half of the replication factor. -/
structure Majorities (m : ReplicationManager) (k : Nat) : Prop where
  replicationFactor : m.replicationFactor = k
  minIsr : ∀ p, ∀ isr ∈ m.isrOf p, isr.minIsr = k / 2 + 1

theorem Majorities.change {k : Nat} (h : m.Majorities k) (q : Int32) {f : ISRSet → ISRSet}
    (hf : ∀ isr, (f isr).minIsr = isr.minIsr) : (m.change q f).Majorities k := by
  refine ⟨h.replicationFactor, fun p isr hisr => ?_⟩
  rw [isrOf_change] at hisr
  split at hisr
  · obtain ⟨isr', hisr', rfl⟩ := Option.map_eq_some_iff.mp hisr
    exact (hf isr').trans (h.minIsr p isr' hisr')
  · exact h.minIsr p isr hisr

theorem Majorities.step {k : Nat} (h : m.Majorities k) (op : ReplicationOp) :
    (m.step overflowChecks op).Majorities k := by
  cases op with
  | initPartition q leader now =>
      refine ⟨h.replicationFactor, fun p isr hisr => ?_⟩
      rw [isrOf, ReplicationManager.step, initPartition, HashMap.lookup_insert_eq] at hisr
      split at hisr
      · cases hisr
        exact congrArg (fun k => k / 2 + 1) h.replicationFactor
      · exact h.minIsr p isr hisr
  | addFollower q follower now =>
      rw [ReplicationManager.step, addFollower_eq]
      exact h.change q fun _ => rfl
  | updateFollowerOffset q follower offset leaderOffset now =>
      rw [ReplicationManager.step, updateFollowerOffset_eq]
      exact h.change q fun _ => rfl
  | removeReplica q replica =>
      rw [ReplicationManager.step, removeReplica_eq]
      exact h.change q fun _ => rfl
  | electLeader q order =>
      rw [ReplicationManager.step]
      split
      · rw [electLeader_eq_change]
        apply h.change
        intro isr
        rw [ISRSet.electLeader_eq]
        split
        · rfl
        · rfl
      · exact h

theorem majorities_run (replicationFactor : Nat) (ops : List ReplicationOp) :
    (run overflowChecks replicationFactor ops).Majorities replicationFactor := by
  have hnew : (new replicationFactor).Majorities replicationFactor :=
    ⟨rfl, fun p isr hisr => by cases hisr⟩
  exact List.foldlRecOn (motive := fun m => m.Majorities replicationFactor) ops
    (step overflowChecks) hnew fun _ h op _ => h.step op

section

variable {replicationFactor : Nat} {ops : List ReplicationOp} {isr : ISRSet} {order : List String}

theorem mem_isr_run (hisr : (run overflowChecks replicationFactor ops).isrOf p = some isr)
    (horder : HashMap.Enumerates order isr.replicas) :
    b ∈ isr.getIsr order ↔ (standing overflowChecks p b ops).inSync = some true := by
  rw [ISRSet.mem_getIsr_iff horder, ← standingOf_run replicationFactor, standingOf, hisr,
    Option.bind_some]

theorem hasMinIsr_run (hisr : (run overflowChecks replicationFactor ops).isrOf p = some isr) :
    (run overflowChecks replicationFactor ops).hasMinIsr p order = true ↔
      replicationFactor < 2 * (isr.getIsr order).length := by
  have hmin := (majorities_run replicationFactor ops).minIsr p isr hisr
  have hlookup : (run overflowChecks replicationFactor ops).isrSets.lookup p = some isr := hisr
  rw [hasMinIsr, hlookup, Option.map_some, Option.getD_some, ISRSet.hasMinIsr, decide_eq_true_eq,
    hmin]
  omega

theorem getIsr_of_isrOf {m : ReplicationManager} (hisr : m.isrOf p = some isr)
    (order : List String) : m.getIsr p order = .ok (isr.getIsr order) := by
  have hlookup : m.isrSets.lookup p = some isr := hisr
  rw [getIsr, hlookup]

theorem initialised_stand (s : Standing) (op : ReplicationOp) :
    (stand overflowChecks p b s op).initialised = (s.initialised || initialises p op) := by
  cases op with
  | initPartition q leader now =>
      rw [stand, initialises]
      split
      · rename_i hp
        simp [hp]
      · rename_i hp
        simp [hp]
  | updateFollowerOffset q follower offset leaderOffset now =>
      show _ = (s.initialised || false)
      rw [stand, Bool.or_false]
      split
      · split
        · rfl
        · rfl
      · rfl
  | addFollower q follower now | removeReplica q replica =>
      show _ = (s.initialised || false)
      rw [stand, Bool.or_false]
      split
      · rfl
      · rfl
  | electLeader q order => exact (Bool.or_false s.initialised).symm

/-- Only a call that makes it one makes a replica known. -/
theorem enters_of_stand {s : Standing} {op : ReplicationOp}
    (h : (stand overflowChecks p b s op).inSync ≠ none) :
    s.inSync ≠ none ∨ enters p s.initialised op = some b := by
  cases op with
  | initPartition q leader now =>
      rw [stand] at h
      rw [enters]
      split at h
      · rename_i hp
        rw [if_pos hp]
        split at h
        · rename_i hb
          exact .inr (congrArg some hb.symm)
        · exact absurd rfl h
      · exact .inl h
  | addFollower q follower now =>
      rw [stand] at h
      rw [enters]
      split at h
      · rename_i hcall
        rw [if_pos ⟨hcall.1, hcall.2.2⟩]
        exact .inr (congrArg some hcall.2.1.symm)
      · exact .inl h
  | updateFollowerOffset q follower offset leaderOffset now =>
      refine .inl fun hnone => h ?_
      rw [stand]
      split
      · split
        · rw [hnone]
          rfl
        · exact hnone
      · exact hnone
  | removeReplica q replica =>
      rw [stand] at h
      split at h
      · exact absurd rfl h
      · exact .inl h
  | electLeader q order => exact .inl h

/-- What is known to be a replica has been made one. -/
theorem entered_of_foldl {s : Standing}
    (h : (ops.foldl (stand overflowChecks p b) s).inSync ≠ none) :
    s.inSync ≠ none ∨ b ∈ entered p s.initialised ops := by
  induction ops generalizing s with
  | nil => exact .inl h
  | cons op ops ih =>
      rw [entered, List.mem_append, Option.mem_toList]
      rcases ih h with hknown | hlater
      · exact (enters_of_stand hknown).imp_right .inl
      · rw [initialised_stand] at hlater
        exact .inr (.inr hlater)

theorem entered_append (initialised : Bool) (ops more : List ReplicationOp) :
    entered p initialised (ops ++ more) =
      entered p initialised ops ++ entered p (initialised || ops.any (initialises p)) more := by
  induction ops generalizing initialised with
  | nil => rw [List.any_nil, Bool.or_false]; rfl
  | cons op ops ih =>
      rw [List.cons_append, entered, entered, ih, List.append_assoc, List.any_cons, Bool.or_assoc]

/-- What is known of a partition is whether it has been initialised. -/
theorem initialised_standing :
    (standing overflowChecks p b ops).initialised = true ↔ Initialised p ops := by
  induction ops using List.reverseRecOn with
  | nil =>
      refine iff_of_false Bool.false_ne_true ?_
      rintro ⟨leader, now, ⟨⟩⟩
  | append_singleton ops op ih =>
      have hop : initialises p op = true ↔ ∃ leader now, op = .initPartition p leader now := by
        cases op <;> simp [initialises, eq_comm]
      rw [standing, List.foldl_concat, ← standing, initialised_stand, Bool.or_eq_true, ih, hop]
      simp only [Initialised, List.mem_append, List.mem_singleton, exists_or, eq_comm]

/-- Where a partition has enough replicas in sync, they are a majority of those that have
been made replicas of it. -/
theorem majority_of_hasMinIsr {replicas : Finset String}
    (hentered : ∀ b ∈ entered p false ops, b ∈ replicas)
    (horder : (run overflowChecks replicationFactor ops).IsOrder p order)
    (hmin : (run overflowChecks replicationFactor ops).hasMinIsr p order = true) :
    ∃ isr, (run overflowChecks replicationFactor ops).getIsr p order = .ok isr ∧
      isr.toFinset ⊆ replicas ∧ replicationFactor < 2 * isr.toFinset.card := by
  cases hisr : (run overflowChecks replicationFactor ops).isrOf p with
  | none =>
      have hlookup : (run overflowChecks replicationFactor ops).isrSets.lookup p = none := hisr
      rw [hasMinIsr, hlookup] at hmin
      cases hmin
  | some isr =>
      refine ⟨isr.getIsr order, getIsr_of_isrOf hisr order, fun b hb => ?_, ?_⟩
      · have hstanding := (mem_isr_run hisr (horder isr hisr)).mp (List.mem_toFinset.mp hb)
        have hreplica : (standing overflowChecks p b ops).inSync ≠ none := by
          rw [hstanding]
          exact Option.some_ne_none true
        exact hentered b ((entered_of_foldl hreplica).resolve_left fun h => h rfl)
      · rw [List.toFinset_card_of_nodup (ISRSet.nodup_getIsr (horder isr hisr))]
        exact (hasMinIsr_run hisr).mp hmin

end

/-- **The reports alone decide who is in sync.**  In every run of the manager and whatever the
orders in which it goes through its tables, if the partition has been initialised `get_isr`
returns, each once, the brokers that were last said to be in sync since they became replicas,
and there are enough of them if they are more than half of the replication factor; a partition
that has not been initialised has no replicas and no leader. -/
theorem isr_is_history (overflowChecks : Bool) (replicationFactor : Nat)
    (ops : List ReplicationOp) (p : Int32) (order : List String)
    (horder : (run overflowChecks replicationFactor ops).IsOrder p order) :
    (Initialised p ops → ∃ isr,
      (run overflowChecks replicationFactor ops).getIsr p order = .ok isr ∧ isr.Nodup ∧
      (∀ b, b ∈ isr ↔ (standing overflowChecks p b ops).inSync = some true) ∧
      ((run overflowChecks replicationFactor ops).hasMinIsr p order = true ↔
        replicationFactor < 2 * isr.length)) ∧
    (¬ Initialised p ops →
      (run overflowChecks replicationFactor ops).getIsr p order = .error (notFound p) ∧
      (run overflowChecks replicationFactor ops).hasMinIsr p order = false ∧
      (run overflowChecks replicationFactor ops).getLeader p = none ∧
      ∀ b, standing overflowChecks p b ops = ⟨false, none⟩) := by
  have hinit : Initialised p ops ↔
      ((run overflowChecks replicationFactor ops).isrOf p).isSome = true := by
    rw [← initialised_standing (b := ""), ← standingOf_run replicationFactor]
    exact Iff.rfl
  rw [hinit]
  cases hisr : (run overflowChecks replicationFactor ops).isrOf p with
  | some isr =>
      refine ⟨fun _ => ?_, fun h => absurd rfl h⟩
      exact ⟨isr.getIsr order, getIsr_of_isrOf hisr order,
        ISRSet.nodup_getIsr (horder isr hisr), fun b => mem_isr_run hisr (horder isr hisr),
        hasMinIsr_run hisr⟩
  | none =>
      have hlookup : (run overflowChecks replicationFactor ops).isrSets.lookup p = none := hisr
      refine ⟨fun h => (by cases h), fun _ => ⟨?_, ?_, ?_, fun b => ?_⟩⟩
      · rw [getIsr, hlookup]
      · rw [hasMinIsr, hlookup]
        rfl
      · rw [getLeader, hlookup]
        rfl
      · rw [← standingOf_run replicationFactor, standingOf, hisr]
        rfl

/-- The leader falls behind, a third replica is added, and a new leader is elected. -/
def oneFallsBehind : List ReplicationOp :=
  [.initPartition 0 "broker-1" .unixEpoch, .addFollower 0 "broker-2" .unixEpoch,
    .updateFollowerOffset 0 "broker-1" 0 500 .unixEpoch, .addFollower 0 "broker-3" .unixEpoch,
    .electLeader 0 ["broker-3", "broker-1", "broker-2"]]

theorem isr_is_history_oneFallsBehind :
    ∃ isr, (run true 3 oneFallsBehind).getIsr 0 ["broker-3", "broker-1", "broker-2"] = .ok isr ∧
      "broker-1" ∉ isr := by
  obtain ⟨isr, hisr, -, hmem, -⟩ :=
    (isr_is_history true 3 oneFallsBehind 0 ["broker-3", "broker-1", "broker-2"] (by decide)).1
      ⟨"broker-1", .unixEpoch, List.mem_cons_self⟩
  refine ⟨isr, hisr, fun h => ?_⟩
  exact absurd ((hmem "broker-1").mp h) (by decide)

/-- **Two majorities meet.**  If no more brokers than the replication factor are made replicas
of a partition, then at any two moments of a run at which it has enough of them in sync, one
of them is in sync at both. -/
theorem in_sync_majorities_meet (overflowChecks : Bool) (replicationFactor : Nat)
    (before after : List ReplicationOp) (p : Int32) (replicas : Finset String)
    (order order' : List String) (hcard : replicas.card ≤ replicationFactor)
    (hentered : ∀ b ∈ entered p false (before ++ after), b ∈ replicas)
    (horder : (run overflowChecks replicationFactor before).IsOrder p order)
    (horder' : (run overflowChecks replicationFactor (before ++ after)).IsOrder p order')
    (hmin : (run overflowChecks replicationFactor before).hasMinIsr p order = true)
    (hmin' : (run overflowChecks replicationFactor (before ++ after)).hasMinIsr p order' = true) :
    ∃ b isr isr', (run overflowChecks replicationFactor before).getIsr p order = .ok isr ∧
      (run overflowChecks replicationFactor (before ++ after)).getIsr p order' = .ok isr' ∧
      b ∈ isr ∧ b ∈ isr' := by
  have hbefore : ∀ b ∈ entered p false before, b ∈ replicas := by
    intro b hb
    apply hentered
    rw [entered_append]
    exact List.mem_append_left _ hb
  obtain ⟨isr, hisr, hsubset, hhalf⟩ := majority_of_hasMinIsr hbefore horder hmin
  obtain ⟨isr', hisr', hsubset', hhalf'⟩ := majority_of_hasMinIsr hentered horder' hmin'
  obtain ⟨b, hb⟩ := Finset.inter_nonempty_of_card_lt_card_add_card hsubset hsubset' (by omega)
  obtain ⟨hfirst, hsecond⟩ := Finset.mem_inter.mp hb
  exact ⟨b, isr, isr', hisr, hisr', List.mem_toFinset.mp hfirst, List.mem_toFinset.mp hsecond⟩

/-- The second broker is in sync before and after the election. -/
theorem in_sync_majorities_meet_oneFallsBehind :
    ∃ b isr isr',
      (run true 3 [.initPartition 0 "broker-1" .unixEpoch,
        .addFollower 0 "broker-2" .unixEpoch]).getIsr 0 ["broker-1", "broker-2"] = .ok isr ∧
      (run true 3 oneFallsBehind).getIsr 0 ["broker-3", "broker-1", "broker-2"] = .ok isr' ∧
      b ∈ isr ∧ b ∈ isr' :=
  in_sync_majorities_meet true 3
    [.initPartition 0 "broker-1" .unixEpoch, .addFollower 0 "broker-2" .unixEpoch]
    [.updateFollowerOffset 0 "broker-1" 0 500 .unixEpoch, .addFollower 0 "broker-3" .unixEpoch,
      .electLeader 0 ["broker-3", "broker-1", "broker-2"]]
    0 {"broker-1", "broker-2", "broker-3"} ["broker-1", "broker-2"]
    ["broker-3", "broker-1", "broker-2"] (by decide) (by decide) (by decide) (by decide)
    (by decide) (by decide)

end ReplicationManager

end Rafka
