/-
Rafka/Election.lean

What an election does (`ReplicationManager::elect_leader` in
`crates/broker/src/replication.rs`).

The new leader is the first in-sync replica that an iteration of the map comes upon.  The
loop over the replicas then promotes it and demotes every other leader, of which there
may be none or several.

`election_sound` says what a call does to whatever replica set it finds: it succeeds
exactly if somebody is in sync, leaves the one leader that it names, and changes nothing
else about the replicas.
-/
import Rafka.InSync

namespace Rafka

namespace ISRSet

variable {isr : ISRSet} {l id : String} {order : List String}

/-- The leader of `after` has been elected among the replicas of `before`. -/
structure Elected (before after : ISRSet) (l : String) : Prop where
  /-- It was in sync. -/
  wasInSync : ∃ r, before.replicas.lookup l = some r ∧ (r.state = .leader ∨ r.state = .follower)
  oneLeader : ∀ id, (∃ r, after.replicas.lookup id = some r ∧ r.state = .leader) ↔ id = l
  leaderId : after.leaderId = l
  /-- `get_isr` returns the same ids, however the maps are iterated. -/
  sameIsr : ∀ order order', HashMap.Enumerates order before.replicas →
    HashMap.Enumerates order' after.replicas →
      (after.getIsr order').toFinset = (before.getIsr order).toFinset
  outOfSync : ∀ id, (∃ r, after.replicas.lookup id = some r ∧ r.state = .outOfSync) ↔
    ∃ r, before.replicas.lookup id = some r ∧ r.state = .outOfSync
  /-- Of a replica nothing but its state changes. -/
  replicas : ∀ id, (after.replicas.lookup id).map (fun r => { r with state := .leader }) =
    (before.replicas.lookup id).map fun r => { r with state := .leader }
  settings : after.partitionId = before.partitionId ∧ after.minIsr = before.minIsr ∧
    after.maxLagMs = before.maxLagMs

theorem inSync_iff {r : ReplicaInfo} :
    inSync r = true ↔ r.state = .leader ∨ r.state = .follower := by
  simp [inSync]

/-- The new leader is in sync; of the others nobody comes into sync or falls out of it. -/
theorem inSync_afterElection_iff {r : ReplicaInfo} (hl : id = l → inSync r = true) :
    inSync (afterElection l id r) = inSync r := by
  by_cases hid : id = l
  · rw [hl hid, afterElection, if_pos hid]
    rfl
  · exact inSync_afterElection hid r

theorem state_afterElection_leader {r : ReplicaInfo} :
    (afterElection l id r).state = .leader ↔ id = l := by
  unfold afterElection
  split
  · rename_i hid
    exact iff_of_true rfl hid
  · rename_i hid
    refine iff_of_false ?_ hid
    split
    · exact fun h => by cases h
    · assumption

theorem afterElection_replica (r : ReplicaInfo) :
    { afterElection l id r with state := .leader } = { r with state := .leader } := by
  unfold afterElection
  split
  · rfl
  · split
    · rfl
    · rfl

/-- A replica is out of sync exactly if it is not in sync. -/
theorem outOfSync_iff {r : ReplicaInfo} : r.state = .outOfSync ↔ inSync r = false := by
  cases hstate : r.state with
  | leader => simp [inSync, hstate]
  | follower => simp [inSync, hstate]
  | outOfSync => simp [inSync, hstate]

/-- **The loop of an election.** -/
theorem elected_of_inSync {r : ReplicaInfo} (hlookup : isr.replicas.lookup l = some r)
    (hsync : inSync r = true) :
    isr.Elected { isr with
      replicas := isr.replicas.mapVals (afterElection l)
      leaderId := l } l := by
  -- whoever is in sync stays so
  have hkeeps : ∀ id r', isr.replicas.lookup id = some r' →
      inSync (afterElection l id r') = inSync r' := by
    intro id r' hr'
    apply inSync_afterElection_iff
    rintro rfl
    rw [hlookup] at hr'
    cases hr'
    exact hsync
  constructor
  · exact ⟨r, hlookup, inSync_iff.mp hsync⟩
  · intro id
    simp only [HashMap.lookup_mapVals, Option.map_eq_some_iff]
    constructor
    · rintro ⟨-, ⟨r', -, rfl⟩, hstate⟩
      exact state_afterElection_leader.mp hstate
    · rintro rfl
      exact ⟨_, ⟨r, hlookup, rfl⟩, state_afterElection_leader.mpr rfl⟩
  · rfl
  · intro order order' horder horder'
    ext id
    rw [List.mem_toFinset, List.mem_toFinset, mem_getIsr horder, mem_getIsr horder']
    simp only [HashMap.lookup_mapVals, Option.map_eq_some_iff]
    constructor
    · rintro ⟨-, ⟨r', hr', rfl⟩, hsync'⟩
      exact ⟨r', hr', (hkeeps id r' hr').symm.trans hsync'⟩
    · rintro ⟨r', hr', hsync'⟩
      exact ⟨_, ⟨r', hr', rfl⟩, (hkeeps id r' hr').trans hsync'⟩
  · intro id
    simp only [HashMap.lookup_mapVals, Option.map_eq_some_iff, outOfSync_iff]
    constructor
    · rintro ⟨-, ⟨r', hr', rfl⟩, hout⟩
      exact ⟨r', hr', (hkeeps id r' hr').symm.trans hout⟩
    · rintro ⟨r', hr', hout⟩
      exact ⟨_, ⟨r', hr', rfl⟩, (hkeeps id r' hr').trans hout⟩
  · intro id
    rw [HashMap.lookup_mapVals, Option.map_map]
    apply congrFun
    apply congrArg
    funext r'
    exact afterElection_replica r'
  · exact ⟨rfl, rfl, rfl⟩

/-- The call on the replica set it finds: nobody is in sync, or one who is gets elected. -/
theorem electLeader_cases_elected (horder : HashMap.Enumerates order isr.replicas) :
    ((∀ id r, isr.replicas.lookup id = some r → inSync r = false) ∧
      isr.electLeader order = (.error "No in-sync replicas available", isr)) ∨
    ∃ l, (isr.electLeader order).1 = .ok l ∧ isr.Elected (isr.electLeader order).2 l := by
  unfold electLeader
  cases hfound : isr.getIsr order with
  | nil =>
      refine .inl ⟨fun id r hr => ?_, rfl⟩
      by_contra hsync
      have hmem := (mem_getIsr horder).mpr ⟨r, hr, by simpa using hsync⟩
      rw [hfound] at hmem
      exact absurd hmem List.not_mem_nil
  | cons l rest =>
      have hmem : l ∈ isr.getIsr order := by
        rw [hfound]
        exact List.mem_cons_self
      obtain ⟨r, hr, hsync⟩ := (mem_getIsr horder).mp hmem
      exact .inr ⟨l, rfl, elected_of_inSync hr hsync⟩

end ISRSet

namespace ReplicationManager

variable {m : ReplicationManager} {p : Int32} {order : List String}

theorem electLeader_of_isrOf {isr : ISRSet} (hisr : m.isrOf p = some isr) :
    m.electLeader p order = ((isr.electLeader order).1, m.setIsr p (isr.electLeader order).2) := by
  have hlookup : m.isrSets.lookup p = some isr := hisr
  rw [electLeader, hlookup]

theorem setIsr_self {isr : ISRSet} (hisr : m.isrOf p = some isr) : m.setIsr p isr = m := by
  rw [setIsr, HashMap.insert_self hisr]

/-- **Leader election is sound.**  Whatever the states of the replicas and whatever the order
of the map, a call succeeds exactly if the partition has a replica that is leader or
follower; it then elects one of these, and changes no other partition; a call that fails
changes nothing. -/
theorem election_sound (m : ReplicationManager) (p : Int32) (order : List String)
    (horder : m.IsOrder p order) :
    ((∃ l, (m.electLeader p order).1 = .ok l) ↔
      ∃ isr, m.isrOf p = some isr ∧ ∃ id r, isr.replicas.lookup id = some r ∧
        (r.state = .leader ∨ r.state = .follower)) ∧
    (∀ l, (m.electLeader p order).1 = .ok l →
      ∃ isr isr', m.isrOf p = some isr ∧ (m.electLeader p order).2 = m.setIsr p isr' ∧
        isr.Elected isr' l) ∧
    ∀ error, (m.electLeader p order).1 = .error error → (m.electLeader p order).2 = m := by
  cases hisr : m.isrOf p with
  | none =>
      have hlookup : m.isrSets.lookup p = none := hisr
      have hfails : m.electLeader p order = (.error (notFound p), m) := by
        rw [electLeader, hlookup]
      rw [hfails]
      refine ⟨iff_of_false ?_ ?_, fun l hl => (by cases hl), fun _ _ => rfl⟩
      · rintro ⟨l, hl⟩
        cases hl
      · rintro ⟨isr, hsome, -⟩
        cases hsome
  | some isr =>
      rw [electLeader_of_isrOf hisr]
      rcases ISRSet.electLeader_cases_elected (horder isr hisr) with
        ⟨hnobody, hfails⟩ | ⟨l, hok, helected⟩
      · rw [hfails]
        refine ⟨iff_of_false ?_ ?_, fun l hl => (by cases hl), fun _ _ => setIsr_self hisr⟩
        · rintro ⟨l, hl⟩
          cases hl
        · rintro ⟨isr', hsome, id, r, hr, hstate⟩
          cases hsome
          have hsync := hnobody id r hr
          rw [ISRSet.inSync_iff.mpr hstate] at hsync
          cases hsync
      · rw [hok]
        obtain ⟨r, hr, hstate⟩ := helected.wasInSync
        refine ⟨iff_of_true ⟨l, rfl⟩ ⟨isr, rfl, l, r, hr, hstate⟩, fun l' hl' => ?_,
          fun error herror => (by cases herror)⟩
        cases hl'
        exact ⟨isr, _, rfl, rfl, helected⟩

/-- A replica set without a leader. -/
def leaderless : ReplicationManager :=
  (((new 3).initPartition 0 "b0" .unixEpoch).updateFollowerOffset true 0 "b0" 0 500
    .unixEpoch).2.step true (.addFollower 0 "b1" .unixEpoch)

theorem election_sound_leaderless :
    leaderless.IsOrder 0 ["b1", "b0"] ∧
      (leaderless.electLeader 0 ["b1", "b0"]).1 = .ok "b1" ∧
      ∃ isr isr', leaderless.isrOf 0 = some isr ∧
        (leaderless.electLeader 0 ["b1", "b0"]).2 = leaderless.setIsr 0 isr' ∧
        isr.Elected isr' "b1" := by
  have horder : leaderless.IsOrder 0 ["b1", "b0"] := by decide +kernel
  have hok : (leaderless.electLeader 0 ["b1", "b0"]).1 = .ok "b1" := by rfl
  exact ⟨horder, hok, (election_sound leaderless 0 ["b1", "b0"] horder).2.1 "b1" hok⟩

end ReplicationManager

end Rafka
